import RoomScript.Proofs.Alignment
import RoomScript.Proofs.Keeping

/-!
# Well-nested scripts and the two control stacks

If blocks and loop frames are kept on different stacks, so nothing but the nesting of a script keeps
them in step. A break does: the frame it closes has saved how many ifs were open, and those opened
since are closed with it. A failed condition does not: it closes the innermost if and leaves the
loop frames alone. If a loop or a switch was opened in that if, its frame stays open for ever, and
after eight of them there is no room for another one.

So a condition may stand anywhere but inside a loop or switch that stands inside the then-part which
the condition would leave; `Shape.sheltered` says so of the blocks around it. Where all conditions
of a well-nested script are sheltered, a thread that runs it always has just those ifs and loops
open that are open at its place among the steps.

**Main statements.** `Thread.nested_invariant`: the open ifs and loop frames of a thread are those
around its place. `Thread.Keeps.leak`: a condition that fails where it is not sheltered leaves the
frames of the loops it was in. `Engine.nesting_never_faults`: a well-nested script whose conditions
are sheltered is never stopped for its nesting, and a failed condition leaves as many loop frames
open as there were when the if was opened. `Engine.unsheltered_overflows`: nine conditions that are
not sheltered stop a script that is well nested.
-/

namespace RoomScript

open Code Layout Payload

/-! ### Steps among open blocks -/

/-- A step may stand with these blocks around it, from the innermost on: entry points outside of
all blocks, breaks in a loop or switch, and no deeper than the two stacks. Steps without a name, and
those that call or start other parts of a script, may stand nowhere. -/
def Step.wellPlaced (around : List Shape) : Step → Bool
  | .instruction .. | .raw _ | .gosub _ | .evtExec .. => false
  | .entry => around.isEmpty
  | .breakLoop => around.any Shape.isLoop
  | .ifStart => around.count .thenPart < blockDepth
  | .forLoop _ | .switch _ | .sleep _ => around.countP Shape.isLoop < loopDepth
  | _ => true

/-- No loop or switch stands between a place and the innermost then-part around it, or there is no
then-part around it. -/
def Shape.sheltered : List Shape → Bool
  | [] | .thenPart :: _ => true
  | .loop :: outer | .switch :: outer => !outer.contains .thenPart
  | .elsePart :: outer | .arm :: outer => sheltered outer

/-- A condition is sheltered by the then-part it would leave. -/
def Step.sheltered (around : List Shape) : Step → Bool
  | .check .. | .compare .. => Shape.sheltered around
  | _ => true

/-- **A script assembled from well-placed steps, its conditions sheltered.** -/
structure Orderly (steps : List Step) (script : Script) (T : Code .row) : Prop
    extends Assembled steps script T where
  placed : ({} : Builder).along Step.wellPlaced steps = true
  sheltered : ({} : Builder).along Step.sheltered steps = true

section Places

variable {steps : List Step} {script : Script} {T : Code .row} {pre post : List Step} {a : Nat}
  {cur : Code .row} {ctx : Context .row} {s : Step}

theorem Orderly.wellPlaced (hO : Orderly steps script T) (h : Place T pre a cur ctx)
    (hs : cur.steps ++ ctx.steps = s :: post) : s.wellPlaced ctx.shapes = true :=
  h.along (by rw [hO.steps_eq]; exact Builder.along_written hO.placed) hO.error_eq hs

/-- There is room for an if. -/
theorem Orderly.ifs_lt (hO : Orderly steps script T) (h : Place T pre a cur ctx)
    (hs : cur.steps ++ ctx.steps = .ifStart :: post) : ctx.ifs < blockDepth :=
  of_decide_eq_true (hO.wellPlaced h hs)

/-- There is room for a loop, a switch or a sleep. -/
theorem Orderly.loops_lt (hO : Orderly steps script T) (h : Place T pre a cur ctx)
    (hs : cur.steps ++ ctx.steps = s :: post)
    (hloop : s.wellPlaced ctx.shapes = decide (ctx.loops < loopDepth)) : ctx.loops < loopDepth :=
  of_decide_eq_true (hloop.symm.trans (hO.wellPlaced h hs))

end Places

/-- An entry point has no block around it. -/
theorem Orderly.top_of_entry {steps : List Step} {script : Script} {T : Code .row}
    (hO : Orderly steps script T) {index a : Nat} (h : script.entry index = .ok a) :
    ∃ pre cur, Place T pre a cur .top := by
  obtain ⟨pre, post, hsteps, hsize, hdeclared⟩ := hO.entry a (Script.mem_of_entry h)
  obtain ⟨k, cur, ctx, hplace, hmatches⟩ := hO.exists_place hsteps
  rw [hsize] at hplace
  -- nothing is open, either at the start or because an entry point is declared here
  have hnone : (Builder.run pre).opened = [] := by
    rcases hdeclared with rfl | hhead
    · rfl
    · obtain ⟨post', rfl⟩ := List.head?_eq_some_iff.mp hhead
      have hplaced := hO.placed
      rw [hsteps] at hplaced
      have hempty : ((Builder.run pre).opened.map Opening.shape).isEmpty = true :=
        Builder.along_iff.mp hplaced pre .entry post' rfl
      simpa using hempty
  rw [hnone] at hmatches
  cases ctx with
  | top => exact ⟨_, _, hplace⟩
  | _ => rcases hmatches with h | ⟨_, h⟩ <;> exact nomatch h

/-! ### The invariant -/

/-- **A thread has those blocks open that are around its place**; asleep, it has one more frame
open. -/
inductive Thread.Nested (T : Code .row) (t : Thread) : Prop
  | awake {k : Kind} {pre : List Step} {cur : Code k} {ctx : Context k}
    (hplace : Place T pre t.pc cur ctx) (h : t.Keeps T ctx ctx.loops)
  | asleep {pre : List Step} {a : Nat} {s : PlainStep} {ticks : UInt16} {rest : Code .row}
    {ctx : Context .row} (hplace : Place T pre a (.step s rest) ctx) (hs : s.val = .sleep ticks)
    (hpc : t.pc = a + 1) (h : t.Keeps T ctx (ctx.loops + 1))

/-- A thread stands before an instruction, with those blocks open that are around it. -/
def Thread.Before (T : Code .row) (t : Thread) (op : Opcode) (raw : Bytes) : Prop :=
  ∃ (k : Kind) (pre : List Step) (cur : Code k) (ctx : Context k) (bytes : List UInt8),
    Place T pre t.pc cur ctx ∧ Emits cur ctx op bytes ∧ raw = bytes.toArray ∧
      t.Keeps T ctx ctx.loops

theorem Thread.Before.stands {T : Code .row} {t : Thread} {op : Opcode} {raw : Bytes}
    (h : t.Before T op raw) : Stands T t.pc op raw := by
  obtain ⟨k, pre, cur, ctx, bytes, hplace, hemits, hraw, -⟩ := h
  exact ⟨k, pre, cur, ctx, bytes, hplace, hemits, hraw⟩

namespace Thread.Nested

variable {steps : List Step} {script : Script} {T : Code .row} {t t' : Thread} {k : Kind}
  {pre : List Step} {cur : Code k} {ctx : Context k} {op : Opcode} {raw : Bytes}

theorem congr (hsame : Same t t') (h : t.Nested T) : t'.Nested T := by
  cases h with
  | awake hplace h =>
    rw [← hsame.pc] at hplace
    exact .awake hplace (h.congr hsame.sub hsame.stackIndex hsame.levels)
  | asleep hplace hs hpc h =>
    exact .asleep hplace hs (hsame.pc.trans hpc) (h.congr hsame.sub hsame.stackIndex hsame.levels)

/-- A thread that has placed its address stays there. -/
theorem of_jump {pc : Nat} (hplace : Place T pre pc cur ctx) (h : t.Keeps T ctx ctx.loops)
    (size : Nat) : ((t.jump pc).moveOn size).Nested T :=
  .awake (t := (t.jump pc).moveOn size) hplace ((h.jump pc).moveOn size)

/-- A thread that has not placed its address is moved on. -/
theorem of_next {size : Nat} (hplace : Place T pre (t.pc + size) cur ctx)
    (h : t.Keeps T ctx ctx.loops) (ho : t.overridden = false) : (t.moveOn size).Nested T := by
  have hpc : (t.moveOn size).pc = t.pc + size := by simp [Thread.moveOn, ho]
  rw [← hpc] at hplace
  exact .awake hplace (h.moveOn size)

/-- A thread stands before the instruction it fetches, or is asleep. -/
theorem before (hA : Assembled steps script T) (h : t.Nested T)
    (hf : script.fetch t.pc = .ok (op, raw)) :
    t.Before T op raw ∨ op = .sleeping ∧ ∃ (pre : List Step) (a : Nat) (s : PlainStep)
      (ticks : UInt16) (rest : Code .row) (ctx : Context .row),
      Place T pre a (.step s rest) ctx ∧ s.val = .sleep ticks ∧ t.pc = a + 1 ∧
        t.Keeps T ctx (ctx.loops + 1) := by
  cases h with
  | awake hplace h =>
    left
    rcases hplace.settle with hend | ⟨k', pre', cur', ctx', op', bytes, hplace', hemits, hsheds⟩
    · rw [← hA.size_eq] at hend
      rw [Script.fetch_of_le (Nat.le_of_eq hend.symm)] at hf
      cases hf
    -- the thread may still be inside of blocks that end here without an instruction
    · rw [hA.fetch_of_emits hplace' hemits] at hf
      cases hf
      refine ⟨k', pre', cur', ctx', bytes, hplace', hemits, rfl, ?_⟩
      rw [hsheds.depth_eq.2]
      exact h.sheds hsheds
  | asleep hplace hs hpc h =>
    refine .inr ⟨?_, _, _, _, _, _, _, hplace, hs, hpc, h⟩
    obtain ⟨⟨raw', hf'⟩, -⟩ := hA.fetch_of_waits ⟨_, _, _, _, _, _, hplace, hs, hpc⟩
    rw [hf] at hf'
    cases hf'
    rfl

end Thread.Nested

/-! ### Plain steps -/

namespace PlainStep

variable {s : PlainStep}

theorem eq_breakLoop (h : s.op = .breakLoop) : s.val = .breakLoop := by
  obtain ⟨s, hs⟩ := s
  cases s <;> first | rfl | exact nomatch hs

theorem eq_sleep (h : s.op = .sleep) : ∃ ticks, s.val = .sleep ticks := by
  obtain ⟨s, hs⟩ := s
  cases s <;> first | exact ⟨_, rfl⟩ | exact nomatch hs

theorem not_wellPlaced (h : s.op = .gosub ∨ s.op = .evtExec) (around : List Shape) :
    s.val.wellPlaced around = false := by
  obtain ⟨s, hs⟩ := s
  cases s <;> first | rfl | exact nomatch hs

theorem sheltered_eq (h : s.op = .check ∨ s.op = .compare) (around : List Shape) :
    s.val.sheltered around = Shape.sheltered around := by
  obtain ⟨s, hs⟩ := s
  cases s <;> first | rfl | exact nomatch hs

end PlainStep

/-! ### The stacks where an instruction needs them -/

namespace Thread.Before

variable {steps : List Step} {script : Script} {T : Code .row} {t : Thread} {op : Opcode}
  {raw : Bytes}

/-- A plain step stands before every instruction that is not the header or the end of a block. -/
theorem plain (h : t.Before T op raw) (hop : op.isBlock = false) :
    ∃ (pre : List Step) (s : PlainStep) (rest : Code .row) (ctx : Context .row), s.op = op ∧
      Place T pre t.pc (.step s rest) ctx ∧ t.Keeps T ctx ctx.loops := by
  obtain ⟨k, pre, cur, ctx, bytes, hplace, hemits, -, hkeeps⟩ := h
  cases hemits with
  | step hs => exact ⟨_, _, _, _, hs.symm, hplace, hkeeps⟩
  | @arm label _ _ _ _ hl => subst hl; cases label <;> exact nomatch hop
  | _ => exact nomatch hop

/-- There is room for the if that is opened. -/
theorem pushBlock (hO : Orderly steps script T) (h : t.Before T .ifStart raw) (resume : Nat) :
    t.pushBlock resume = .ok (t.openIf resume) := by
  obtain ⟨k, pre, cur, ctx, bytes, hplace, hemits, -, hkeeps⟩ := h
  cases hemits.borders rfl with
  | ifThen | ifElse => exact hkeeps.pushBlock (hO.ifs_lt hplace rfl) resume

/-- There is an if to be closed. -/
theorem popBlock (h : t.Before T op raw) (hop : op = .elseStart ∨ op = .endIf) :
    ∃ resume, t.popBlock = (t.closeIf, .ok resume) := by
  obtain ⟨k, pre, cur, ctx, bytes, hplace, hemits, -, hkeeps⟩ := h
  cases hemits.borders (by rcases hop with rfl | rfl <;> rfl) with
  | elseStart =>
    obtain ⟨-, -, resume, hpop, -⟩ := hkeeps.closeIf .thenElse
    exact ⟨resume, hpop⟩
  | endIf =>
    obtain ⟨-, -, resume, hpop, -⟩ := hkeeps.closeIf .thenOnly
    exact ⟨resume, hpop⟩
  | _ => exact hop.elim nofun nofun

/-- There is room for the frame that is opened. -/
theorem pushLoop (hO : Orderly steps script T) (h : t.Before T op raw)
    (hop : op = .sleep ∨ op = .forLoop ∨ op = .switch) (frame : Frame) :
    t.pushLoop frame = .ok (t.openLoop frame) := by
  rcases hop with rfl | hop
  · obtain ⟨pre, s, rest, ctx, hs, hplace, hkeeps⟩ := h.plain rfl
    obtain ⟨ticks, hval⟩ := PlainStep.eq_sleep hs
    have hroom := hO.loops_lt hplace rfl (by rw [hval]; rfl)
    exact hkeeps.pushLoop hroom frame
  · obtain ⟨k, pre, cur, ctx, bytes, hplace, hemits, -, hkeeps⟩ := h
    cases hemits.borders (by rcases hop with rfl | rfl <;> rfl) with
    | loop | switch => exact hkeeps.pushLoop (hO.loops_lt hplace rfl rfl) frame
    | _ => exact hop.elim nofun nofun

/-- The instructions that count a frame down or close it stand in a loop or a switch. -/
theorem loops_pos (hO : Orderly steps script T) (h : t.Before T op raw)
    (hop : op = .forEnd ∨ op = .breakLoop ∨ op = .endSwitch) :
    ∃ (k : Kind) (ctx : Context k), 0 < ctx.loops ∧ t.Keeps T ctx ctx.loops := by
  by_cases hbreak : op = .breakLoop
  -- that a break is inside of something is what the builder does not see to
  · subst hbreak
    obtain ⟨pre, s, rest, ctx, hs, hplace, hkeeps⟩ := h.plain rfl
    have hplaced := hO.wellPlaced hplace rfl
    rw [PlainStep.eq_breakLoop hs] at hplaced
    exact ⟨_, ctx, List.countP_pos_iff.mpr (List.any_eq_true.mp hplaced), hkeeps⟩
  · obtain ⟨k, pre, cur, ctx, bytes, hplace, hemits, -, hkeeps⟩ := h
    have hborder : op.isBorder = true := by
      rcases hop with rfl | rfl | rfl
      · rfl
      · exact absurd rfl hbreak
      · rfl
    cases hemits.borders hborder with
    | forEnd | endSwitch => exact ⟨_, _, by simp, hkeeps⟩
    | _ => simp at hop

end Thread.Before

/-! ### Instructions at a depth -/

namespace Thread.Before

variable {steps : List Step} {script : Script} {T : Code .row} {t : Thread} {op : Opcode}
  {raw : Bytes}

/-- Behind an instruction that is no control instruction the same blocks are open. -/
theorem passes (h : t.Before T op raw) (ho : t.overridden = false) (hop : op.isControl = false) :
    (t.moveOn op.size).Nested T := by
  obtain ⟨k, pre, cur, ctx, bytes, hplace, hemits, -, hkeeps⟩ := h
  cases hemits with
  | step hs => subst hs; exact .of_next hplace.pastStep hkeeps ho
  | @arm label body more _ _ hl =>
    subst hl
    refine .of_next hplace.intoArm ?_ ho
    rw [Context.loops_arm]
    exact hkeeps.arm more
  | _ => exact nomatch hop

theorem evtEnd (h : t.Before T .evtEnd raw) (ho : t.overridden = false) :
    t.leaveSubroutine = none ∧ (t.moveOn Opcode.evtEnd.size).Nested T := by
  obtain ⟨pre, s, rest, ctx, hs, hplace, hkeeps⟩ := h.plain rfl
  refine ⟨by simp [leaveSubroutine, hkeeps.sub], ?_⟩
  rw [← hs]
  exact .of_next hplace.pastStep hkeeps ho

theorem ifStart (hO : Orderly steps script T) (h : t.Before T .ifStart raw) {p : Block}
    (ho : t.overridden = false) (hp : decode Block raw = .ok p) :
    ((t.openIf (t.pc + Opcode.ifStart.size + p.length.toNat)).moveOn
      Opcode.ifStart.size).Nested T := by
  obtain ⟨k, pre, cur, ctx, bytes, hplace, hemits, rfl, hkeeps⟩ := h
  cases hemits.borders rfl with
  | ifThen =>
    obtain ⟨pre', hresume⟩ := hplace.resume_ifThen hO.fits hp
    refine .of_next (t := t.openIf _) hplace.intoThen ?_ ho
    rw [Context.loops_thenOnly]
    exact hkeeps.openIf (hO.ifs_lt hplace rfl) hresume
  | ifElse =>
    obtain ⟨pre', hresume⟩ := hplace.resume_ifElse hO.fits hp
    refine .of_next (t := t.openIf _) hplace.intoThenElse ?_ ho
    rw [Context.loops_thenElse]
    exact hkeeps.openIfElse (hO.ifs_lt hplace rfl) hresume

theorem endIf (h : t.Before T .endIf raw) (ho : t.overridden = false) :
    (t.closeIf.moveOn Opcode.endIf.size).Nested T := by
  obtain ⟨k, pre, cur, ctx, bytes, hplace, hemits, -, hkeeps⟩ := h
  cases hemits.borders rfl with
  | @endIf rest outer =>
    obtain ⟨hclosed, -⟩ := hkeeps.closeIf .thenOnly
    rw [Context.loops_thenOnly] at hclosed
    exact .of_next (t := t.closeIf) hplace.pastThen hclosed ho

theorem elseStart (hA : Assembled steps script T) (h : t.Before T .elseStart raw) {p : Block}
    (hp : decode Block raw = .ok p) (size : Nat) :
    ((t.closeIf.jump (t.pc + p.length.toNat)).moveOn size).Nested T := by
  obtain ⟨k, pre, cur, ctx, bytes, hplace, hemits, rfl, hkeeps⟩ := h
  cases hemits.borders rfl with
  | @elseStart other rest outer =>
    obtain ⟨hclosed, -⟩ := hkeeps.closeIf .thenElse
    rw [Context.loops_thenElse] at hclosed
    obtain ⟨pre', hbehind⟩ := hplace.skip_else hA.fits hp
    exact .of_jump hbehind (hclosed.sheds (.elsePart .refl)) size

/-- A loop is skipped or opened. -/
theorem forLoop (hO : Orderly steps script T) (h : t.Before T .forLoop raw) {p : ForLoop}
    (hp : decode ForLoop raw = .ok p) (size : Nat) :
    ((t.jump (t.pc + Opcode.forLoop.size + p.length.toNat)).moveOn size).Nested T ∧
      (((t.openLoop (p.frame t.pc t.level.ifCounter)).jump
        (t.pc + Opcode.forLoop.size)).moveOn size).Nested T := by
  obtain ⟨k, pre, cur, ctx, bytes, hplace, hemits, rfl, hkeeps⟩ := h
  cases hemits.borders rfl with
  | loop =>
    have hroom := hO.loops_lt hplace rfl rfl
    obtain ⟨-, pre', hbehind⟩ := hplace.break_loop hO.fits hp
    refine ⟨.of_jump hbehind hkeeps size, .of_jump hplace.intoLoop ?_ size⟩
    rw [Context.loops_loop]
    exact hkeeps.openLoop hroom rfl hbehind hplace.intoLoop

/-- A round of a loop ends: the loop is gone through again, or left. -/
theorem forEnd (h : t.Before T .forEnd raw) {i : Fin loopDepth}
    (hi : t.level.openFrame? = some i) (size : Nat) :
    (((t.countDown i).jump (t.level.frames.get i).body).moveOn size).Nested T ∧
      (((t.countDown i).dropLoop.jump (t.pc + Opcode.forEnd.size)).moveOn size).Nested T := by
  obtain ⟨k, pre, cur, ctx, bytes, hplace, hemits, -, hkeeps⟩ := h
  cases hemits.borders rfl with
  | @forEnd count body rest outer =>
    obtain ⟨⟨_, pre', f, hslot, -, -, hbody⟩, -⟩ := hkeeps.level.kept
    obtain ⟨hlt, rfl⟩ := Vector.getElem?_eq_some_iff.mp hslot
    have hcounted := hkeeps.countDown i
    have hkept : outer.Kept T _ := hcounted.level.kept.2
    rw [Context.loops_loop] at hkeeps
    -- the frame counted down is that of the loop
    rw [hkeeps.openFrame? hlt] at hi
    cases hi
    refine ⟨.of_jump hbody hcounted size, ?_⟩
    rw [Context.loops_loop] at hcounted
    exact .of_jump hplace.pastLoop (hcounted.dropLoop (by simp) hkept) size

/-- A switch goes to one of its arms, or behind its end. -/
theorem switch (hO : Orderly steps script T) (h : t.Before T .switch raw) {p : Switch}
    (hp : decode Switch raw = .ok p) (value : Int32) (size : Nat) :
    let opened := t.openLoop (p.frame t.pc t.level.ifCounter)
    (∃ address, Control.findArm script value (t.pc + Opcode.switch.size) = .ok (.body address) ∧
      ((opened.jump address).moveOn size).Nested T) ∨
    (∃ address, Control.findArm script value (t.pc + Opcode.switch.size) = .ok (.behind address) ∧
      ((opened.dropLoop.jump address).moveOn size).Nested T) := by
  intro opened
  obtain ⟨k, pre, cur, ctx, bytes, hplace, hemits, rfl, hkeeps⟩ := h
  cases hemits.borders rfl with
  | @switch var arms rest ctx =>
    have hroom := hO.loops_lt hplace rfl rfl
    obtain ⟨-, pre', hbehind⟩ := hplace.break_switch hO.fits hp
    have hopened : opened.Keeps T (.switch rest ctx) (ctx.loops + 1) :=
      hkeeps.openSwitch hroom rfl hbehind
    rw [(hO.findArm_eq hplace.intoSwitch value).1]
    -- the search ends in front of the body of an arm, or behind the switch, whose frame it drops
    rcases hplace.intoSwitch.chosen value with
      ⟨body, more, pre'', address, -, htarget, harm⟩ | ⟨pre'', address, -, htarget, hend⟩
    · refine .inl ⟨address, by rw [htarget], .of_jump harm ?_ size⟩
      rw [Context.loops_arm, Context.loops_switch]
      exact hopened.arm more
    · exact .inr ⟨address, by rw [htarget],
        .of_jump hend (hopened.dropLoop (by simp) hopened.level.kept.2) size⟩

theorem endSwitch (h : t.Before T .endSwitch raw) (ho : t.overridden = false) :
    (t.dropLoop.moveOn Opcode.endSwitch.size).Nested T := by
  obtain ⟨k, pre, cur, ctx, bytes, hplace, hemits, -, hkeeps⟩ := h
  cases hemits.borders rfl with
  | @endSwitch rest outer =>
    have houter : outer.Kept T t.level := hkeeps.level.kept.2
    rw [Context.loops_switch] at hkeeps
    exact .of_next (t := t.dropLoop) hplace.pastSwitch (hkeeps.dropLoop (by simp) houter) ho

/-- A break leaves the innermost loop or switch. -/
theorem breakLoop (hO : Orderly steps script T) (h : t.Before T .breakLoop raw) {i : Fin loopDepth}
    (hi : t.level.openFrame? = some i) (size : Nat) :
    ((t.breakOut (t.level.frames.get i)).moveOn size).Nested T := by
  obtain ⟨k, ctx, hpos, hkeeps⟩ := h.loops_pos hO (.inr (.inl rfl))
  obtain ⟨cur, ctx', hb⟩ := Context.exists_breaks hpos
  obtain ⟨j, pre, hj, hleft, hplace⟩ := hkeeps.breakOut hb
  rw [hi] at hj
  cases hj
  exact .awake (t := (t.breakOut _).moveOn size) hplace (hleft.moveOn size)

/-- A thread falls asleep. -/
theorem sleep (h : t.Before T .sleep raw) (frame : Frame) (size : Nat) :
    (((t.openLoop frame).jump (t.pc + 1)).moveOn size).Nested T := by
  obtain ⟨pre, s, rest, ctx, hs, hplace, hkeeps⟩ := h.plain rfl
  obtain ⟨ticks, hval⟩ := PlainStep.eq_sleep hs
  have hopened : (t.openLoop frame).Keeps T ctx (ctx.loops + 1) :=
    hkeeps.openFrame rfl (hkeeps.level.kept.congr (hkeeps.below_openLoop _ _).agrees)
  exact .asleep (t := ((t.openLoop frame).jump _).moveOn size) hplace hval rfl
    ((hopened.jump _).moveOn size)

/-- Nothing else of the script is called or started. -/
theorem not_calls (hO : Orderly steps script T) (h : t.Before T op raw)
    (hop : op = .gosub ∨ op = .evtExec) : False := by
  obtain ⟨pre, s, rest, ctx, hs, hplace, -⟩ := h.plain (by rcases hop with rfl | rfl <;> rfl)
  have hplaced := hO.wellPlaced hplace rfl
  rw [PlainStep.not_wellPlaced (hs ▸ hop)] at hplaced
  exact nomatch hplaced

end Thread.Before

/-! ### Conditions that fail -/

theorem Context.ifs_eq_zero {k : Kind} {ctx : Context k}
    (h : (!ctx.shapes.contains .thenPart) = true) : ctx.ifs = 0 := by
  refine List.count_eq_zero.mpr fun hmem => ?_
  simp [hmem] at h

/-- A sheltered place with an if around it is left to that if. -/
theorem Context.exists_unwinds {k : Kind} {ctx : Context k}
    (hs : Shape.sheltered ctx.shapes = true) (h : 0 < ctx.ifs) :
    ∃ cur ctx', ctx.Unwinds cur ctx' := by
  -- the shelter keeps a loop or a switch from standing between the condition and its if
  induction ctx with
  | top => simp at h
  | thenOnly rest outer => exact ⟨rest, outer, .thenOnly⟩
  | thenElse other rest outer => exact ⟨other, .elsePart rest outer, .thenElse⟩
  | elsePart rest outer ih =>
    obtain ⟨cur, ctx', hu⟩ := ih hs (by simpa using h)
    exact ⟨cur, ctx', .elsePart hu⟩
  | loop count body rest outer =>
    rw [ifs_loop, ifs_eq_zero hs] at h
    exact absurd h (Nat.lt_irrefl 0)
  | switch rest outer =>
    rw [ifs_switch, ifs_eq_zero hs] at h
    exact absurd h (Nat.lt_irrefl 0)
  | arm more outer ih =>
    cases outer with
    | switch rest outer =>
      rw [ifs_arm, ifs_switch, ifs_eq_zero hs] at h
      exact absurd h (Nat.lt_irrefl 0)

/-- **A failed condition goes on at a place**, with the blocks around that place open. -/
theorem Thread.Before.condition {steps : List Step} {script : Script} {T : Code .row} {t : Thread}
    {op : Opcode} {raw : Bytes} (hO : Orderly steps script T) (h : t.Before T op raw)
    (ho : t.overridden = false) (hop : op = .check ∨ op = .compare) :
    let out := (t.moveOn op.size).follow .unwind
    (∃ pulse, out.2 = .ok pulse) ∧ ∃ (pre : List Step) (cur : Code .row) (ctx : Context .row),
      Place T pre out.1.pc cur ctx ∧ out.1.Keeps T ctx ctx.loops := by
  intro out
  obtain ⟨pre, s, rest, ctx, hs, hplace, hkeeps⟩ :=
    h.plain (by rcases hop with rfl | rfl <;> rfl)
  have hsheltered := hplace.along (by rw [hO.steps_eq]; exact Builder.along_written hO.sheltered)
    hO.error_eq rfl
  rw [PlainStep.sheltered_eq (hs ▸ hop)] at hsheltered
  have hmoved : (t.moveOn op.size).Keeps T ctx ctx.loops := hkeeps.moveOn op.size
  have hpc : (t.moveOn op.size).pc = t.pc + op.size := by simp [moveOn, ho]
  have hcounter := hmoved.level.ifCounter
  by_cases hnone : (t.moveOn op.size).level.ifCounter < 0
  · -- no if is open: the thread yields where it is
    have hout : out = (t.moveOn op.size, .ok .yielded) := by
      simp only [out, follow, if_pos hnone]
    have hbehind := hplace.pastStep
    rw [hs, ← hpc] at hbehind
    rw [hout]
    exact ⟨⟨_, rfl⟩, _, rest, ctx, hbehind, hmoved⟩
  · obtain ⟨cur, ctx', hu⟩ := Context.exists_unwinds hsheltered (by omega)
    obtain ⟨hclosed, pre', resume, hpop, hresume⟩ := hmoved.closeIf hu
    have hout : out = ({ (t.moveOn op.size).closeIf with pc := resume }, .ok .running) := by
      simp only [out, follow, if_neg hnone, hpop]
    rw [hout]
    rw [hu.depth_eq.2] at hclosed
    exact ⟨⟨_, rfl⟩, pre', cur, ctx', hresume, hclosed.congr rfl rfl rfl⟩

/-- The innermost if that is open says where it is resumed, and the loops opened in it are those
that are not around that place. -/
theorem Context.Kept.innermost {T : Code .row} {l : Level} {k : Kind} {ctx : Context k}
    (h : ctx.Kept T l) (hpos : 0 < ctx.ifs) :
    ∃ (pre : List Step) (a : Nat) (cur : Code .row) (ctx' : Context .row),
      l.stack[ctx'.ifs]? = some a ∧ Place T pre a cur ctx' ∧ ctx.ifs = ctx'.ifs + 1 ∧
        ctx'.loops ≤ ctx.loops ∧
        (Shape.sheltered ctx.shapes = false → ctx'.loops < ctx.loops) := by
  induction ctx with
  | top => simp at hpos
  | thenOnly rest outer ih =>
    obtain ⟨⟨pre, a, hslot, hplace⟩, -⟩ := h
    exact ⟨pre, a, rest, outer, hslot, hplace, by simp, by simp, fun hs => nomatch hs⟩
  | thenElse other rest outer ih =>
    obtain ⟨⟨pre, a, hslot, hplace⟩, -⟩ := h
    refine ⟨pre, a, other, .elsePart rest outer, ?_, hplace, by simp, by simp,
      fun hs => nomatch hs⟩
    rw [ifs_elsePart]
    exact hslot
  -- an else part and an arm are no blocks of their own
  | elsePart rest outer ih | arm more outer ih =>
    obtain ⟨pre, a, cur, ctx', hslot, hplace, hifs, hle, hlt⟩ := ih h (by simpa using hpos)
    exact ⟨pre, a, cur, ctx', hslot, hplace, by simpa using hifs, by simpa using hle,
      fun hs => by simpa using hlt hs⟩
  -- from inside a loop or a switch, the innermost if is outside of one frame more
  | loop count body rest outer ih =>
    obtain ⟨pre, a, cur, ctx', hslot, hplace, hifs, hle, -⟩ := ih h.2 (by simpa using hpos)
    refine ⟨pre, a, cur, ctx', hslot, hplace, by simpa using hifs, ?_, fun _ => ?_⟩ <;>
      rw [loops_loop] <;> omega
  | switch rest outer ih =>
    obtain ⟨pre, a, cur, ctx', hslot, hplace, hifs, hle, -⟩ := ih h.2 (by simpa using hpos)
    refine ⟨pre, a, cur, ctx', hslot, hplace, by simpa using hifs, ?_, fun _ => ?_⟩ <;>
      rw [loops_switch] <;> omega

/-- **A condition that fails where it is not sheltered leaks**: the thread goes on at a place with
fewer loops around it than it has frames open. -/
theorem Thread.Keeps.leak {T : Code .row} {k : Kind} {t : Thread} {ctx : Context k}
    (h : t.Keeps T ctx ctx.loops) (hs : Shape.sheltered ctx.shapes = false)
    (hopen : 0 ≤ t.level.ifCounter) :
    ∃ (pre : List Step) (cur : Code .row) (ctx' : Context .row),
      (t.follow .unwind).2 = .ok .running ∧ Place T pre (t.follow .unwind).1.pc cur ctx' ∧
        (ctx'.loops : Int) < (t.follow .unwind).1.level.loopLevel + 1 := by
  have hcounter := h.level.ifCounter
  obtain ⟨pre, a, cur, ctx', hslot, hplace, hifs, -, hlt⟩ := h.level.kept.innermost (by omega)
  have hpop := popBlock_eq (h.stackIndex.trans hifs) hslot
  have hout : t.follow .unwind = ({ t.closeIf with pc := a }, .ok .running) := by
    simp only [follow, if_neg (by omega : ¬ t.level.ifCounter < 0), hpop]
  have hlevel : ({ t.closeIf with pc := a } : Thread).level.loopLevel = t.level.loopLevel := by
    change t.closeIf.level.loopLevel = _
    rw [level_closeIf]
  refine ⟨pre, cur, ctx', by rw [hout], by rw [hout]; exact hplace, ?_⟩
  rw [hout, hlevel, h.level.loopLevel]
  exact Int.ofNat_lt.mpr (hlt hs)

/-! ### Turns -/

/-- The faults of the two control stacks. -/
def Fault.isNesting : Fault → Bool
  | .emptyBlockStack _ | .blockStackOverflow _ | .loopUnderflow _ | .loopOverflow _ => true
  | _ => false

namespace Thread.Nested

variable {steps : List Step} {script : Script} {T : Code .row} {t t' : Thread} {op : Opcode}
  {raw : Bytes} {view : Host.View} {pre : List Step} {a : Nat} {s : PlainStep} {ticks : UInt16}
  {rest : Code .row} {ctx : Context .row} {flow : Flow} {f : Fault}

/-- The instruction inside a sleep keeps its thread there or wakes it. -/
theorem effect_asleep (hroom : ctx.loops < loopDepth) (hplace : Place T pre a (.step s rest) ctx)
    (hs : s.val = .sleep ticks) (hpc : t.pc = a + 1) (h : t.Keeps T ctx (ctx.loops + 1))
    {res : Except Fault Flow} (he : Effect script view t .sleeping raw t' res) :
    res = .ok .halt ∧ (t'.moveOn Opcode.sleeping.size).Nested T := by
  obtain ⟨i, -, rfl, rfl⟩ | ⟨i, -, rfl, rfl⟩ | ⟨hnone, -⟩ := he.sleeping_cases
  · exact ⟨rfl, .asleep (t := ((t.countDown i).jump t.pc).moveOn _) hplace hs hpc
      (((h.countDown i).jump _).moveOn _)⟩
  · have hcounted := h.countDown i
    have hbehind := hplace.pastStep
    have hsize : a + s.op.size = t.pc + Opcode.sleeping.size := by
      obtain ⟨s, hplain⟩ := s
      subst hs
      rw [hpc]
      rfl
    rw [hsize] at hbehind
    exact ⟨rfl, .of_jump hbehind (hcounted.dropLoop rfl hcounted.level.kept) _⟩
  · -- the frame that the sleep has opened is still there
    rw [h.openFrame? hroom] at hnone
    exact nomatch hnone

/-- **An instruction moves its thread to a place with those blocks around it that it has open.** -/
theorem effect_ok (hO : Orderly steps script T) (h : t.Before T op raw)
    (ho : t.overridden = false) (he : Effect script view t op raw t' (.ok flow)) :
    ((t'.moveOn op.size).follow flow).1.Nested T := by
  -- The thread has room for what the instruction opens and has open what it closes, so each
  -- operation on the stacks comes out as the place says.
  cases he with
  | passes hop => exact h.passes ho hop
  | fails hop =>
    obtain ⟨-, pre, cur, ctx, hplace, hkeeps⟩ := h.condition hO ho hop
    exact .awake hplace hkeeps
  | selects w => exact congr (t := t.moveOn _) ⟨rfl, rfl, rfl, rfl⟩ (h.passes ho rfl)
  | returns ht =>
    rw [(h.evtEnd ho).1] at ht
    exact nomatch ht
  | ends _ => exact congr (t := t.moveOn _) ⟨rfl, rfl, rfl, rfl⟩ (h.evtEnd ho).2
  | opensIf hp ht =>
    rw [h.pushBlock hO] at ht
    cases ht
    exact h.ifStart hO ho hp
  | skipsElse hp ht =>
    obtain ⟨resume, hpop⟩ := h.popBlock (.inl rfl)
    rw [hpop] at ht
    cases ht
    exact h.elseStart hO.toAssembled hp _
  | closesIf ht =>
    obtain ⟨resume, hpop⟩ := h.popBlock (.inr rfl)
    rw [hpop] at ht
    cases ht
    exact h.endIf ho
  | sleeps hp ht =>
    rw [h.pushLoop hO (.inl rfl)] at ht
    cases ht
    exact h.sleep _ _
  | dozes _ _ _ | wakes _ _ _ => exact h.stands.not_sleeping.elim
  | skipsLoop hp _ => exact (h.forLoop hO hp _).1
  | opensLoop hp _ ht =>
    rw [h.pushLoop hO (.inr (.inl rfl))] at ht
    cases ht
    exact (h.forLoop hO hp _).2
  | loopsOn i hi _ => exact (h.forEnd hi _).1
  | leavesLoop i hi _ => exact (h.forEnd hi _).2
  | breaks i hi => exact h.breakLoop hO hi _
  | takesArm hp ht ha =>
    rw [h.pushLoop hO (.inr (.inr rfl))] at ht
    cases ht
    rcases h.switch hO hp _ Opcode.switch.size with ⟨_, ha', hnested⟩ | ⟨_, ha', -⟩ <;>
      rw [ha] at ha' <;> cases ha'
    exact hnested
  | takesNone hp ht ha =>
    rw [h.pushLoop hO (.inr (.inr rfl))] at ht
    cases ht
    rcases h.switch hO hp _ Opcode.switch.size with ⟨_, ha', -⟩ | ⟨_, ha', hnested⟩ <;>
      rw [ha] at ha' <;> cases ha'
    exact hnested
  | closesSwitch i hi => exact h.endSwitch ho
  | calls _ _ => exact (h.not_calls hO (.inl rfl)).elim

/-- No instruction faults for the control stacks, and one that faults leaves its thread alone. -/
theorem effect_error (hO : Orderly steps script T) (h : t.Before T op raw)
    (he : Effect script view t op raw t' (.error f)) : t' = t ∧ f.isNesting = false := by
  cases he with
  | balks _ hvalue => exact ⟨rfl, by cases f <;> first | rfl | exact nomatch hvalue⟩
  | tooManyIfs ht =>
    rw [h.pushBlock hO] at ht
    exact nomatch ht
  | noIf hop ht =>
    obtain ⟨resume, hpop⟩ := h.popBlock hop
    rw [hpop] at ht
    exact nomatch ht
  | losesArm hp ht ha =>
    rcases h.switch hO hp _ 0 with ⟨_, ha', -⟩ | ⟨_, ha', -⟩ <;> rw [ha] at ha' <;>
      exact nomatch ha'
  | tooManyLoops hop ht =>
    rw [h.pushLoop hO hop] at ht
    exact nomatch ht
  | noLoop hop hi =>
    rcases hop with rfl | hop
    · exact h.stands.not_sleeping.elim
    · obtain ⟨k, ctx, hpos, hkeeps⟩ := h.loops_pos hO hop
      obtain ⟨i, hi'⟩ := hkeeps.openFrame?_of_pos hpos
      rw [hi] at hi'
      exact nomatch hi'
  | noEntry _ | tooDeep _ => exact (h.not_calls hO (.inl rfl)).elim

/-- **A turn keeps a thread nested, and does not fault for the control stacks.** -/
theorem turn (hO : Orderly steps script T) (h : t.Nested T)
    (hf : script.fetch t.pc = .ok (op, raw)) {res : Except Fault Machine.Pulse}
    (hturn : Turned script view t op raw t' res) :
    t'.Nested T ∧ ∀ f, res = .error f → f.isNesting = false := by
  have hready : t.ready.Nested T := congr (.ready t) h
  -- a sleep has a frame of its own, which the place does not know
  rcases hready.before hO.toAssembled hf with
    hbefore | ⟨rfl, pre, a, s, ticks, rest, ctx, hplace, hs, hpc, hkeeps⟩
  · cases hturn with
    | fault he =>
      obtain ⟨rfl, hkind⟩ := effect_error hO hbefore he
      exact ⟨hready, fun f hres => by cases hres; exact hkind⟩
    | flow he =>
      refine ⟨effect_ok hO hbefore rfl he, fun f hres => ?_⟩
      cases he with
      | fails hop =>
        obtain ⟨⟨pulse, hpulse⟩, -⟩ := hbefore.condition hO rfl hop
        rw [hpulse] at hres
        cases hres
      | _ => cases hres
  · have hroom : ctx.loops < loopDepth := hO.loops_lt hplace rfl (by rw [hs]; rfl)
    cases hturn with
    | fault he => exact nomatch (effect_asleep hroom hplace hs hpc hkeeps he).1
    | flow he =>
      obtain ⟨hflow, hnested⟩ := effect_asleep hroom hplace hs hpc hkeeps he
      cases hflow
      exact ⟨hnested, nofun⟩

/-- A thread that is nested starts no event. -/
theorem ne_evtExec (hO : Orderly steps script T) (h : t.Nested T)
    (hf : script.fetch t.pc = .ok (op, raw)) : op ≠ .evtExec := by
  rintro rfl
  rcases h.before hO.toAssembled hf with hbefore | ⟨hop, -⟩
  · exact hbefore.not_calls hO (.inr rfl)
  · exact nomatch hop

theorem idle (T : Code .row) (id : Nat) : (Thread.idle id).Nested T :=
  .awake (t := Thread.idle id) .start ⟨rfl, rfl, .top rfl rfl⟩

/-- A thread is started outside of all blocks. -/
theorem activate (hO : Orderly steps script T) {index address : Nat}
    (he : script.entry index = .ok address) (t : Thread) : (t.activate address).Nested T := by
  obtain ⟨pre, cur, hplace⟩ := hO.top_of_entry he
  refine .awake (t := t.activate address) hplace ⟨rfl, rfl, .top ?_ ?_⟩ <;>
    simp [Thread.activate, Thread.level, Thread.jump, Level.resetCounters]

end Thread.Nested

/-- **Threads that run an orderly script have those blocks open that are around their place.** -/
theorem Thread.nested_invariant {steps : List Step} {script : Script} {T : Code .row}
    (hO : Orderly steps script T) : Invariant script (Nested T) where
  congr := Nested.congr
  activate := fun he _ => Nested.activate hO he _
  event := fun hf h => absurd rfl (h.ne_evtExec hO hf)
  turn := fun hf _ hturn h => (h.turn hO hf hturn).1

/-! ### The depth of an address -/

/-- The number of loops and switches that are open. -/
def Builder.loops (b : Builder) : Nat := (b.opened.map Opening.shape).countP Shape.isLoop

/-- A step that writes nothing opens or closes no loop. -/
theorem Step.Nests.loops_eq {s : Step} {opened opened' : List Opening}
    (h : s.Nests opened opened') (hwidth : s.width opened = 0) :
    (opened'.map Opening.shape).countP Shape.isLoop =
      (opened.map Opening.shape).countP Shape.isLoop := by
  cases h with
  | plain _ => rfl
  | closesElse => simp [Opening.shape, Shape.isLoop]
  | opensArm label _ _ | nextArm label _ _ =>
    cases label <;> exact absurd hwidth (Nat.succ_ne_zero _)
  | _ => exact absurd hwidth (Nat.succ_ne_zero _)

/-- Steps that write nothing open or close no loop. -/
theorem Builder.loops_eq {pre mid : List Step} (hnamed : ∀ s ∈ mid, s.isNamed = true)
    (herr : (run (pre ++ mid)).error = none)
    (hsize : (run (pre ++ mid)).code.size = (run pre).code.size) :
    (run (pre ++ mid)).loops = (run pre).loops := by
  -- sizes only grow, so that each of the steps writes nothing
  have hgrow : ∀ (mid : List Step) (b : Builder), (∀ s ∈ mid, s.isNamed = true) →
      (mid.foldl apply b).error = none → b.code.size ≤ (mid.foldl apply b).code.size := by
    intro mid
    induction mid with
    | nil => exact fun b _ _ => Nat.le_refl _
    | cons s mid ih =>
      intro b hnamed herr
      rw [List.forall_mem_cons] at hnamed
      have hstep := size_apply hnamed.1 (error_foldl herr)
      have hrest := ih (b.apply s) hnamed.2 herr
      rw [List.foldl_cons]
      omega
  rw [run, List.foldl_append] at herr hsize ⊢
  generalize hb : pre.foldl apply {} = b at herr hsize ⊢
  have hpre : run pre = b := hb
  rw [hpre] at hsize ⊢
  clear hb hpre
  induction mid generalizing b with
  | nil => rfl
  | cons s mid ih =>
    rw [List.forall_mem_cons] at hnamed
    rw [List.foldl_cons] at herr hsize ⊢
    have hnone := error_foldl herr
    have hstep := size_apply hnamed.1 hnone
    have hrest := hgrow mid (b.apply s) hnamed.2 herr
    have hwidth : s.width b.opened = 0 := by omega
    rw [ih hnamed.2 _ herr (by omega)]
    exact (nests_apply hnamed.1 hnone).loops_eq hwidth

namespace Place

variable {T : Code .row} {k k' : Kind} {pre pre' : List Step} {a : Nat} {cur : Code k}
  {ctx : Context k} {cur' : Code k'} {ctx' : Context k'}

/-- The loops around a place are those open while the steps before it are carried out. -/
theorem loops_run (herr : (Builder.run T.steps).error = none) (h : Place T pre a cur ctx) :
    (Builder.run pre).loops = ctx.loops := by
  rcases (h.size_run herr).2 with hshapes | ⟨-, hshapes⟩
  · rw [Builder.loops, hshapes]
    rfl
  · rw [Builder.loops, hshapes]
    simp [Context.loops, Shape.isLoop]

/-- **Places at one address have equally many loops around them.** -/
theorem loops_eq (herr : (Builder.run T.steps).error = none) (h : Place T pre a cur ctx)
    (h' : Place T pre' a cur' ctx') : ctx.loops = ctx'.loops := by
  -- the steps before one of the places begin with those before the other
  have hordered : ∀ {k k' : Kind} {pre mid : List Step} {cur : Code k} {ctx : Context k}
      {cur' : Code k'} {ctx' : Context k'}, Place T pre a cur ctx →
      Place T (pre ++ mid) a cur' ctx' → ctx.loops = ctx'.loops := by
    intro k k' pre mid cur ctx cur' ctx' h h'
    have hsteps := h'.steps_eq
    rw [← h.loops_run herr, ← h'.loops_run herr]
    refine (Builder.loops_eq (fun s hs => ?_) ?_ ?_).symm
    · exact (named_of_mem_steps (c := T) (by rw [hsteps]; simp [hs])).1
    · rw [hsteps, Builder.run, List.foldl_append] at herr
      exact Builder.error_foldl herr
    · rw [(h.size_run herr).1, (h'.size_run herr).1]
  rcases List.append_eq_append_iff.mp (h.steps_eq.symm.trans h'.steps_eq) with
    ⟨mid, rfl, -⟩ | ⟨mid, rfl, -⟩
  · exact hordered h h'
  · exact (hordered h' h).symm

end Place

/-! ### Runs -/

/-- An if resumes with as many loops around as there are frames open when it is opened. -/
theorem Thread.Before.resume {steps : List Step} {script : Script} {T : Code .row} {t : Thread}
    {raw : Bytes} (hA : Assembled steps script T) (h : t.Before T .ifStart raw) {p : Block}
    (hp : decode Block raw = .ok p) :
    ∃ (pre : List Step) (cur : Code .row) (ctx : Context .row),
      Place T pre (t.pc + Opcode.ifStart.size + p.length.toNat) cur ctx ∧
        t.level.loopLevel + 1 = ctx.loops := by
  obtain ⟨k, pre, cur, ctx, bytes, hplace, hemits, rfl, hkeeps⟩ := h
  cases hemits.borders rfl with
  | ifThen =>
    obtain ⟨pre', hresume⟩ := hplace.resume_ifThen hA.fits hp
    exact ⟨pre', _, _, hresume, hkeeps.level.loopLevel⟩
  | ifElse =>
    obtain ⟨pre', hresume⟩ := hplace.resume_ifElse hA.fits hp
    refine ⟨pre', _, _, hresume, ?_⟩
    rw [Context.loops_elsePart]
    exact hkeeps.level.loopLevel

/-- Only conditions unwind, and where they do the thread goes on at the end of its innermost if. -/
theorem Machine.turn_unwind {n : Nat} {σ : Type} [Host σ] {m : Machine n σ} {rules : Rules}
    {script : Script} {i : Fin n} {op : Opcode} {raw : Bytes}
    (hstd : rules.handlers = Handler.standard) (hw : Whole op raw) (hop : op ≠ .evtExec)
    (h : (m.execute rules script i op raw).2 = .ok .unwind) :
    (op = .check ∨ op = .compare) ∧ (m.turn rules script i op raw).1.pool.thread i =
      (((m.pool.thread i).ready.moveOn op.size).follow .unwind).1 := by
  have hresult : (m.reaction rules script i op raw).result = .ok .unwind := by
    obtain ⟨m', -, -, hexec⟩ := execute_eq m rules script i op raw
    rw [hexec] at h
    split at h
    · next hres => cases h; exact hres
    · exact nomatch h
  obtain ⟨-, -, hok⟩ := m.turn_eq rules script i op raw rfl
  obtain ⟨hpool, -⟩ := hok .unwind hresult
  obtain ⟨t, ht, heff⟩ := Handler.standard_effect (m.site script i) (Host.view m.host) hw hop
  rw [← hstd] at ht heff
  rw [thread_site] at heff
  rw [replace_site] at ht
  change (m.reaction rules script i op raw).pool = _ at ht
  change Effect _ _ _ _ _ _ (m.reaction rules script i op raw).result at heff
  rw [hresult] at heff
  rw [hpool, Pool.thread_replace, ht, Pool.thread_replace]
  cases heff with
  | fails hop => exact ⟨hop, rfl⟩

/-- Well-placed steps have names, so that their script is assembled from a tree. -/
theorem Orderly.of_build {steps : List Step} {script : Script}
    (hplaced : ({} : Builder).along Step.wellPlaced steps = true)
    (harms : Step.armsFirst (Builder.written steps) = true)
    (hbuild : (Builder.run steps).build = .ok script)
    (hsheltered : ({} : Builder).along Step.sheltered steps = true) :
    ∃ T, Orderly steps script T := by
  have hnamed : ∀ s ∈ steps, s.isNamed = true := by
    intro s hs
    obtain ⟨around, hplace⟩ := Builder.exists_of_along hplaced hs
    cases s with
    | instruction | raw => exact nomatch hplace
    | _ => rfl
  obtain ⟨T, hA⟩ := Assembled.of_build hnamed harms hbuild
  exact ⟨T, hA, hplaced, hsheltered⟩

section Moments

variable {steps : List Step} {script : Script} {T : Code .row} (hO : Orderly steps script T)
  {n : Nat} {σ : Type} [Host σ] {m : Machine n σ} {rules : Rules} {i : Fin n} {op : Opcode}
  {raw : Bytes}

include hO

/-- **A thread is never stopped for its nesting.** -/
theorem Machine.StoppedBy.isNesting (hstd : rules.handlers = Handler.standard)
    (h : (m.pool.thread i).Nested T) {f : Fault} (hstop : m.StoppedBy rules script i f) :
    f.isNesting = false := by
  obtain hfetch | ⟨executed, hbudget⟩ | ⟨op, raw, hf, hturn⟩ := hstop
  · have hcode := Script.isCode_of_fetch hfetch
    cases f <;> first | rfl | exact nomatch hcode
  · obtain ⟨budget, rfl⟩ := fault_of_overBudget hbudget
    rfl
  · obtain ⟨t, -, hturned⟩ :=
      m.turn_local script i hstd (Script.whole_of_fetch hf) (h.ne_evtExec hO hf)
    exact (h.turn hO hf hturned).2 f hturn

/-- **A failed condition leaves its thread at a place**, with the blocks around that place open. -/
theorem Machine.nested_of_unwind (hstd : rules.handlers = Handler.standard)
    (h : (m.pool.thread i).Nested T) (hf : script.fetch (m.pool.thread i).pc = .ok (op, raw))
    (hfails : (m.execute rules script i op raw).2 = .ok .unwind) :
    let after := (m.turn rules script i op raw).1.pool.thread i
    ∃ (pre : List Step) (cur : Code .row) (ctx : Context .row),
      Place T pre after.pc cur ctx ∧ after.Keeps T ctx ctx.loops := by
  intro after
  obtain ⟨hcond, hafter⟩ :=
    turn_unwind hstd (Script.whole_of_fetch hf) (h.ne_evtExec hO hf) hfails
  have hready : (m.pool.thread i).ready.Nested T := .congr (.ready _) h
  rcases hready.before hO.toAssembled hf with hbefore | ⟨rfl, -⟩
  · have hplaced := (hbefore.condition hO rfl hcond).2
    rwa [← hafter] at hplaced
  · exact hcond.elim nofun nofun

/-- **Where an if is resumed, as many loop frames are open as where it was opened.** -/
theorem Thread.Nested.loopLevel_of_resume {t u : Thread} (ht : t.Nested T)
    (hf : script.fetch t.pc = .ok (.ifStart, raw)) {p : Block} (hp : decode Block raw = .ok p)
    {pre : List Step} {cur : Code .row} {ctx : Context .row} (hplace : Place T pre u.pc cur ctx)
    (hkeeps : u.Keeps T ctx ctx.loops)
    (hresume : u.pc = t.pc + Opcode.ifStart.size + p.length.toNat) :
    u.level.loopLevel = t.level.loopLevel := by
  rcases ht.before hO.toAssembled hf with hif | ⟨hop, -⟩
  · obtain ⟨pre', cur', ctx', hplace', hlevel⟩ := hif.resume hO.toAssembled hp
    -- both places are at one address, so the same loops are around them
    rw [← hresume] at hplace'
    have hloops := hplace'.loops_eq hO.error_eq hplace
    have hopen := hkeeps.level.loopLevel
    omega
  · exact nomatch hop

end Moments

/-- **Well-nested scripts never run into their control stacks, if their conditions are sheltered.**
Take a script that is assembled from well-placed steps, with every switch followed at once by an arm
or its end and with no condition in a loop or switch inside the then-part that it would leave, and
anything that is done with it on a new engine. Then no pass is stopped for an if block or a loop
frame, and a thread that leaves an if through a failed condition has as many loop frames open as
there were when the if was opened. -/
theorem Engine.nesting_never_faults {σ : Type} [Host σ] {steps : List Step} {script : Script}
    (hplaced : ({} : Builder).along Step.wellPlaced steps = true)
    (harms : Step.armsFirst (Builder.written steps) = true)
    (hbuild : (Builder.run steps).build = .ok script)
    (hsheltered : ({} : Builder).along Step.sheltered steps = true)
    (config : Config) (traces : TraceSet) (host : σ) {calls : List (Call σ)}
    (hcalls : ∀ c ∈ calls, ∀ s ∈ c.scripts, s = script) (fuel : Nat) :
    let start := Engine.ofConfig config traces host
    let e := start.run calls
    (∀ f, (e.machine.pass e.rules script fuel).2 = .error (.fault f) → f.isNesting = false) ∧
    ∀ v ∈ start.moments calls, ∀ w ∈ start.moments calls, ∀ raw p op raw',
      let opening := v.2.pool.thread v.1
      let after := (w.2.turn e.rules script w.1 op raw').1.pool.thread w.1
      script.fetch opening.pc = .ok (.ifStart, raw) → decode Block raw = .ok p →
      script.fetch (w.2.pool.thread w.1).pc = .ok (op, raw') →
      (w.2.execute e.rules script w.1 op raw').2 = .ok .unwind →
      after.pc = opening.pc + Opcode.ifStart.size + p.length.toNat →
      after.level.loopLevel = opening.level.loopLevel := by
  intro start e
  obtain ⟨T, hO⟩ := Orderly.of_build hplaced harms hbuild hsheltered
  have hstd : e.rules.handlers = Handler.standard :=
    handlers_run_ofConfig config traces host calls
  have hinv := Thread.nested_invariant hO
  have hscripts : ∀ c ∈ calls, ∀ s ∈ c.scripts, Thread.Invariant s (Thread.Nested T) :=
    fun c hc s hs => by rw [hcalls c hc s hs]; exact hinv
  have hidle := ofConfig_invariant (Thread.Nested.idle T) config traces host
  refine ⟨fun f hstop => ?_, ?_⟩
  · have hrun := run_invariant rfl Thread.Nested.congr hscripts hidle
    have hvisit := visits_invariant (c := .pass script fuel) hstd
      (fun s hs => by rw [List.mem_singleton.mp hs]; exact hinv) hrun
    obtain ⟨v, hv, hstopped⟩ := Machine.pass_stoppedBy hstop
    exact hstopped.isNesting hO hstd (hvisit v hv v.1)
  · intro v hv w hw raw p op raw' opening after hfv hp hfw hfails hresume
    have hmoment := moments_invariant rfl Thread.Nested.congr hscripts hidle
    obtain ⟨pre, cur, ctx, hplace, hkeeps⟩ :=
      Machine.nested_of_unwind hO hstd (hmoment w hw w.1) hfw hfails
    exact (hmoment v hv v.1).loopLevel_of_resume hO hfv hp hplace hkeeps hresume

/-- A condition that fails in a loop, in an if that stands in that loop. -/
def Script.shelteredCheck : Script where
  data := #[0x0d, 0, 11, 0, 1, 0, 0x06, 0, 5, 0, 0x21, 0, 0, 1, 0x08, 0x0e, 0]
  entries := [0]
  entries_lt := by decide

/-- The if is opened in the only round of the loop and left through the condition, with the frame of
the loop still open; the script then ends without an end and is stopped for that alone. -/
theorem Engine.nesting_never_faults_shelteredCheck :
    let steps : List Step := [.forLoop 1, .ifStart, .check 0 0 1, .endIf, .forEnd]
    let calls : List (Call Stage) := [.start .shelteredCheck 0 0, .pass .shelteredCheck 9]
    let start := Engine.ofConfig {} {} ({} : Stage)
    let e := start.run [.start .shelteredCheck 0 0]
    (Builder.run steps).build = .ok .shelteredCheck ∧
      (∃ f, (e.machine.pass e.rules .shelteredCheck 9).2 = .error (.fault f) ∧
        f.isNesting = false) ∧
      ∃ v ∈ start.moments calls, ∃ w ∈ start.moments calls,
        let after := (w.2.turn e.rules .shelteredCheck w.1 .check #[0x21, 0, 0, 1]).1.pool.thread w.1
        (v.2.pool.thread v.1).pc = 6 ∧ (w.2.pool.thread w.1).pc = 10 ∧ after.pc = 15 ∧
          after.level.loopLevel = (v.2.pool.thread v.1).level.loopLevel := by
  intro steps calls start e
  have hbuild : (Builder.run steps).build = .ok .shelteredCheck := by decide +kernel
  have hone : ∀ c ∈ [(.start .shelteredCheck 0 0 : Call Stage)], ∀ s ∈ c.scripts,
      s = .shelteredCheck := by simp [Call.scripts]
  have hboth : ∀ c ∈ calls, ∀ s ∈ c.scripts, s = .shelteredCheck := by
    simp [calls, Call.scripts]
  have hstopped := nesting_never_faults (by decide) (by decide) hbuild (by decide) {} {}
    ({} : Stage) hone 9
  have hlevel := nesting_never_faults (by decide) (by decide) hbuild (by decide) {} {}
    ({} : Stage) hboth 9
  have hfault : (e.machine.pass e.rules .shelteredCheck 9).2 =
      .error (.fault (.pcOutOfRange 17 17)) := by decide +kernel
  obtain ⟨v, hv, hpc, hfetch⟩ : ∃ v ∈ start.moments calls, (v.2.pool.thread v.1).pc = 6 ∧
      Script.shelteredCheck.fetch (v.2.pool.thread v.1).pc = .ok (.ifStart, #[0x06, 0, 5, 0]) := by
    decide +kernel
  obtain ⟨w, hw, hpc', hfetch', hfails, hresume⟩ : ∃ w ∈ start.moments calls,
      (w.2.pool.thread w.1).pc = 10 ∧
      Script.shelteredCheck.fetch (w.2.pool.thread w.1).pc = .ok (.check, #[0x21, 0, 0, 1]) ∧
      (w.2.execute e.rules .shelteredCheck w.1 .check #[0x21, 0, 0, 1]).2 = .ok .unwind ∧
      ((w.2.turn e.rules .shelteredCheck w.1 .check #[0x21, 0, 0, 1]).1.pool.thread w.1).pc =
        15 := by
    decide +kernel
  refine ⟨hbuild, ⟨_, hfault, hstopped.1 _ hfault⟩, v, hv, w, hw, hpc, hpc', hresume, ?_⟩
  refine hlevel.2 v hv w hw #[0x06, 0, 5, 0] ⟨5⟩ .check #[0x21, 0, 0, 1] hfetch rfl hfetch'
    hfails ?_
  rw [hpc]
  exact hresume

/-- Nine times a condition in a loop, in the then-part that it leaves. -/
def Script.leakyChecks : Script where
  data := ((List.replicate 9 [(0x06 : UInt8), 0, 13, 0, 0x0d, 0, 6, 0, 2, 0, 0x21, 0, 0, 1, 0x0e, 0,
    0x08]).flatten ++ [0x01, 0]).toArray
  entries := [0]
  entries_lt := by decide +kernel

/-- **Without shelter the frames of loops leak.** The script is well nested, and no more than one if
and one loop are ever around a step. Each condition fails, closes the if and leaves the frame of the
loop open: after the first one the thread is back outside of all blocks with a frame open, and at
the ninth loop there is no room left. -/
theorem Engine.unsheltered_overflows :
    let steps : List Step := .entry :: (List.replicate 9
      [.ifStart, .forLoop 2, .check 0 0 1, .forEnd, .endIf]).flatten ++ [.evtEnd]
    let start := Engine.ofConfig {} {} ({} : Stage)
    let e := start.run [.start .leakyChecks 0 0]
    ({} : Builder).along Step.wellPlaced steps = true ∧
      Step.armsFirst (Builder.written steps) = true ∧
      (Builder.run steps).build = .ok .leakyChecks ∧
      ({} : Builder).along Step.sheltered steps = false ∧
      ((e.visits (.pass .leakyChecks 99)).map fun v =>
        ((v.2.pool.thread v.1).pc, (v.2.pool.thread v.1).level.loopLevel)).take 4 =
          [(0, -1), (4, -1), (10, 0), (17, 0)] ∧
      (e.machine.pass e.rules .leakyChecks 99).2 = .error (.fault (.loopOverflow 0x8c)) := by
  decide +kernel

end RoomScript
