import RoomScript.Proofs.Place
import RoomScript.Proofs.Turns
import RoomScript.Session

/-!
# Assembled code is only entered at its instructions

Addresses come to a thread from many sides: it steps over instructions, resumes behind an if, goes
back to the body of a loop, breaks out of it, follows the arms of a switch, returns from subroutines
and is started at entry points. Many of them are saved in the thread first, and what a slot has held
stays there after the block is closed. So the invariant is about every address a thread has saved,
on every level and whether its slot is in use or not: it is a place of the tree that the script was
assembled from. The address a thread stands at is a place too, or the byte behind the opcode of a
sleep, which holds the instruction that waits.

**Main statements.** `Thread.aligned_invariant`: threads that run an assembled script stay at its
places. `Engine.fetches_aligned`: whatever an engine is asked to do with an assembled script, every
address that is fetched is the start of an instruction, the inside of a sleep or the end of the
script, and a pass is never stopped for anything else that is wrong with the code.
-/

namespace RoomScript

open Code Layout Payload

/-! ### Spots -/

/-- Some place of the tree stands at the address. -/
def Spot (T : Code .row) (a : Nat) : Prop :=
  ∃ (k : Kind) (pre : List Step) (cur : Code k) (ctx : Context k), Place T pre a cur ctx

/-- The address is the byte behind the opcode of a sleep. -/
def Waits (T : Code .row) (a : Nat) : Prop :=
  ∃ (pre : List Step) (b : Nat) (s : PlainStep) (ticks : UInt16) (rest : Code .row)
    (ctx : Context .row), Place T pre b (.step s rest) ctx ∧ s.val = .sleep ticks ∧ a = b + 1

/-- The instruction stands at the address, at some place of the tree. -/
def Stands (T : Code .row) (a : Nat) (op : Opcode) (raw : Bytes) : Prop :=
  ∃ (k : Kind) (pre : List Step) (cur : Code k) (ctx : Context k) (bytes : List UInt8),
    Place T pre a cur ctx ∧ Emits cur ctx op bytes ∧ raw = bytes.toArray

theorem Place.spot {T : Code .row} {k : Kind} {pre : List Step} {a : Nat} {cur : Code k}
    {ctx : Context k} (h : Place T pre a cur ctx) : Spot T a := ⟨k, pre, cur, ctx, h⟩

theorem Spot.zero (T : Code .row) : Spot T 0 := Place.start.spot

/-- The opcodes of the headers and ends of blocks, and of what waits inside a sleep. -/
def Opcode.isBlock : Opcode → Bool
  | .ifStart | .elseStart | .endIf | .forLoop | .forEnd | .switch | .caseArm | .defaultCase
  | .endSwitch | .sleeping => true
  | _ => false

theorem PlainStep.isBlock_op (s : PlainStep) : s.op.isBlock = false := by
  obtain ⟨s, hs⟩ := s
  cases s with
  | entry | instruction | raw | ifStart | elseStart | endIf | forLoop | forEnd | switch | caseArm
  | defaultCase | endSwitch => exact nomatch hs
  | _ => rfl

/-! ### The borders of blocks -/

/-- The block opcodes that no arm begins with. -/
def Opcode.isBorder (op : Opcode) : Bool :=
  op.isBlock && op != .caseArm && op != .defaultCase

/-- **The instructions at the borders of blocks**: those of `Emits` that are no plain step and begin
no arm. -/
inductive Borders : {k : Kind} → Code k → Context k → Opcode → List UInt8 → Prop
  | ifThen {body rest ctx} : Borders (.ifThen body rest) ctx .ifStart
    (Opcode.ifStart.header 0 (body.size + Opcode.endIf.size) [])
  | ifElse {body other rest ctx} : Borders (.ifElse body other rest) ctx .ifStart
    (Opcode.ifStart.header 0 (Opcode.ifStart.size + body.size) [])
  | loop {count body rest ctx} : Borders (.loop count body rest) ctx .forLoop
    (Opcode.forLoop.header 0 (body.size + Opcode.forEnd.size) (wordBytes count))
  | switch {var arms rest ctx} : Borders (.switch var arms rest) ctx .switch
    (Opcode.switch.header var (arms.size + Opcode.endSwitch.size) [])
  | endIf {rest outer} : Borders .done (.thenOnly rest outer) .endIf (Opcode.endIf.bytes [])
  | elseStart {other rest outer} : Borders .done (.thenElse other rest outer) .elseStart
    (Opcode.elseStart.header 0 (Opcode.elseStart.size + other.size) [])
  | forEnd {count body rest outer} : Borders .done (.loop count body rest outer) .forEnd
    (Opcode.forEnd.bytes [])
  | endSwitch {rest outer} : Borders .done (.switch rest outer) .endSwitch
    (Opcode.endSwitch.bytes [])

/-- An opcode of a border is found at a border alone. -/
theorem Emits.borders {k : Kind} {cur : Code k} {ctx : Context k} {op : Opcode}
    {bytes : List UInt8} (h : Emits cur ctx op bytes) (hop : op.isBorder = true) :
    Borders cur ctx op bytes := by
  cases h with
  | @step s _ _ _ hs =>
    rw [hs, Opcode.isBorder, s.isBlock_op] at hop
    exact nomatch hop
  | @arm label _ _ _ _ hl => subst hl; cases label <;> exact nomatch hop
  | ifThen => exact .ifThen
  | ifElse => exact .ifElse
  | loop => exact .loop
  | switch => exact .switch
  | endIf => exact .endIf
  | elseStart => exact .elseStart
  | forEnd => exact .forEnd
  | endSwitch => exact .endSwitch

namespace Stands

variable {T : Code .row} {a : Nat} {op : Opcode} {raw : Bytes}

/-- Behind every instruction is a spot. -/
theorem next (h : Stands T a op raw) : Spot T (a + op.size) := by
  obtain ⟨k, pre, cur, ctx, bytes, hplace, hemits, -⟩ := h
  obtain ⟨s, k', cur', ctx', hnext⟩ := hplace.step_of_emits hemits
  exact hnext.spot

/-- An if resumes at a spot: behind it, or in its else. -/
theorem resume (hT : T.Fits) (h : Stands T a .ifStart raw) {p : Block}
    (hp : decode Block raw = .ok p) :
    Spot T (a + Opcode.ifStart.size + p.length.toNat) := by
  obtain ⟨k, pre, cur, ctx, bytes, hplace, hemits, rfl⟩ := h
  cases hemits.borders rfl with
  | ifThen => exact (hplace.resume_ifThen hT hp).elim fun _ h => h.spot
  | ifElse => exact (hplace.resume_ifElse hT hp).elim fun _ h => h.spot

/-- An else is skipped to a spot. -/
theorem skipElse (hT : T.Fits) (h : Stands T a .elseStart raw) {p : Block}
    (hp : decode Block raw = .ok p) : Spot T (a + p.length.toNat) := by
  obtain ⟨k, pre, cur, ctx, bytes, hplace, hemits, rfl⟩ := h
  cases hemits.borders rfl with
  | elseStart => exact (hplace.skip_else hT hp).elim fun _ h => h.spot

/-- A loop is left to a spot. -/
theorem breakLoop (hT : T.Fits) (h : Stands T a .forLoop raw) {p : ForLoop}
    (hp : decode ForLoop raw = .ok p) :
    Spot T (a + Opcode.forLoop.size + p.length.toNat) := by
  obtain ⟨k, pre, cur, ctx, bytes, hplace, hemits, rfl⟩ := h
  cases hemits.borders rfl with
  | loop => exact (hplace.break_loop hT hp).2.elim fun _ h => h.spot

/-- A switch is left to a spot, and its arms follow its header. -/
theorem breakSwitch (hT : T.Fits) (h : Stands T a .switch raw) {p : Switch}
    (hp : decode Switch raw = .ok p) :
    Spot T (a + Opcode.switch.size + p.length.toNat) ∧
      ∃ (pre : List Step) (arms : Code .arms) (ctx : Context .arms),
        Place T pre (a + Opcode.switch.size) arms ctx := by
  obtain ⟨k, pre, cur, ctx, bytes, hplace, hemits, rfl⟩ := h
  cases hemits.borders rfl with
  | @switch var arms rest =>
    obtain ⟨-, pre', hbehind⟩ := hplace.break_switch hT hp
    exact ⟨hbehind.spot, _, arms, _, hplace.intoSwitch⟩

end Stands

namespace Stands

variable {T : Code .row} {a : Nat} {raw : Bytes}

/-- A sleep has the instruction that waits in it. -/
theorem waits (h : Stands T a .sleep raw) : Waits T (a + 1) := by
  obtain ⟨k, pre, cur, ctx, bytes, hplace, hemits, -⟩ := h
  cases hemits with
  | @step s rest ctx _ hop =>
    obtain ⟨s, hs⟩ := s
    cases s with
    | sleep ticks => exact ⟨pre, a, ⟨.sleep ticks, hs⟩, ticks, rest, ctx, hplace, rfl, rfl⟩
    | entry | instruction | raw | ifStart | elseStart | endIf | forLoop | forEnd | switch | caseArm
    | defaultCase | endSwitch => exact nomatch hs
    | _ => exact nomatch hop
  | @arm label _ _ _ _ hop => cases label <;> exact nomatch hop

/-- The instruction that waits stands nowhere else. -/
theorem not_sleeping (h : Stands T a .sleeping raw) : False := by
  obtain ⟨k, pre, cur, ctx, bytes, hplace, hemits, -⟩ := h
  exact nomatch hemits.borders rfl

end Stands

/-- Where a search for an arm has ended. -/
def Control.Arm.address : Control.Arm → Nat
  | .body address | .behind address => address

/-- **The search for an arm goes from instruction to instruction.** -/
theorem Place.armsBefore {T : Code .row} {arms : Code .arms} {ctx : Context .arms}
    {pre : List Step} {a : Nat} (h : Place T pre a arms ctx) (value : Int32) :
    ∀ x ∈ arms.armsBefore value a, ∃ op raw, Stands T x op raw := by
  -- on the arms, as they are searched: each one that does not take the value leads to the next
  match arms, ctx with
  | .done, .switch rest outer =>
    simp only [Code.armsBefore, List.mem_singleton, forall_eq]
    exact ⟨_, _, _, _, _, _, _, h, .endSwitch, rfl⟩
  | .arm none body more, ctx =>
    simp only [Code.armsBefore, List.mem_singleton, forall_eq]
    exact ⟨_, _, _, _, _, _, _, h, .arm rfl, rfl⟩
  | .arm (some v) body more, ctx =>
    simp only [Code.armsBefore]
    by_cases hv : (v.toNat : Int) = value.toInt
    · simp only [if_pos hv, List.mem_singleton, forall_eq]
      exact ⟨_, _, _, _, _, _, _, h, .arm rfl, rfl⟩
    · simp only [if_neg hv, List.forall_mem_cons]
      exact ⟨⟨_, _, _, _, _, _, _, h, .arm rfl, rfl⟩,
        h.intoArm.skip_all.pastArm.armsBefore value⟩

/-- The search for an arm ends at a spot. -/
theorem Place.spot_target {T : Code .row} {arms : Code .arms} {ctx : Context .arms}
    {pre : List Step} {a : Nat} (h : Place T pre a arms ctx) (value : Int32) :
    Spot T (arms.target value a).address := by
  cases ctx with
  | switch rest outer =>
    rcases h.chosen value with ⟨_, _, _, _, -, htarget, h'⟩ | ⟨_, _, -, htarget, h'⟩ <;>
      rw [htarget] <;> exact h'.spot

namespace Assembled

variable {steps : List Step} {script : Script} {T : Code .row} {a : Nat} {op : Opcode}
  {raw : Bytes}

/-- At a spot there is an instruction, or the script is at its end. -/
theorem fetch_of_spot (hA : Assembled steps script T) (h : Spot T a) :
    (∃ op raw, script.fetch a = .ok (op, raw) ∧ Stands T a op raw) ∨
      a = script.data.size ∧ script.fetch a = .error (.pcOutOfRange a script.data.size) := by
  obtain ⟨k, pre, cur, ctx, hplace⟩ := h
  rcases hplace.settle with hend | ⟨k', pre', cur', ctx', op, bytes, hplace', hemits, -⟩
  · rw [← hA.size_eq] at hend
    exact .inr ⟨hend, Script.fetch_of_le (Nat.le_of_eq hend.symm)⟩
  · exact .inl ⟨op, _, hA.fetch_of_emits hplace' hemits, _, _, _, _, _, hplace', hemits, rfl⟩

theorem stands_of_fetch (hA : Assembled steps script T) (h : Spot T a)
    (hf : script.fetch a = .ok (op, raw)) : Stands T a op raw := by
  rcases hA.fetch_of_spot h with ⟨op', raw', hf', hstands⟩ | ⟨-, hf'⟩
  · rw [hf] at hf'
    cases hf'
    exact hstands
  · rw [hf] at hf'
    exact nomatch hf'

/-- Inside a sleep stands the instruction that waits, and behind it is a spot. -/
theorem fetch_of_waits (hA : Assembled steps script T) (h : Waits T a) :
    (∃ raw, script.fetch a = .ok (.sleeping, raw)) ∧ Spot T (a + Opcode.sleeping.size) := by
  obtain ⟨pre, b, ⟨s, hs⟩, ticks, rest, ctx, hplace, rfl, rfl⟩ := h
  have hholds := hA.holds hplace
  rw [Code.encode, List.append_assoc] at hholds
  have hsplit : PlainStep.bytes ⟨.sleep ticks, hs⟩ =
      [Opcode.sleep.toByte] ++ Opcode.sleeping.bytes (wordBytes ticks) := rfl
  have hheld := hholds.left
  rw [hsplit] at hheld
  refine ⟨⟨_, Script.fetch_of_holds .sleeping (wordBytes ticks) (Nat.le_refl 3) hheld.right⟩,
    ?_⟩
  exact hplace.pastStep.spot

/-- The search for an arm succeeds, at a spot, and looks at instructions only. -/
theorem findArm_of_stands (hA : Assembled steps script T) (h : Stands T a .switch raw)
    {p : Switch} (hp : decode Switch raw = .ok p) (value : Int32) :
    (∃ arm, Control.findArm script value (a + Opcode.switch.size) = .ok arm ∧
      Spot T arm.address) ∧
      ∀ x ∈ Control.scanned script value (a + Opcode.switch.size),
        ∃ op raw, Stands T x op raw := by
  obtain ⟨-, pre, arms, ctx, harms⟩ := h.breakSwitch hA.fits hp
  obtain ⟨hfind, hscan⟩ := hA.findArm_eq harms value
  exact ⟨⟨_, hfind, harms.spot_target value⟩, hscan ▸ harms.armsBefore value⟩

/-- What the search finds is a spot. -/
theorem spot_of_findArm (hA : Assembled steps script T) (h : Stands T a .switch raw) {p : Switch}
    (hp : decode Switch raw = .ok p) {value : Int32} {arm : Control.Arm}
    (harm : Control.findArm script value (a + Opcode.switch.size) = .ok arm) :
    Spot T arm.address := by
  obtain ⟨arm', harm', hspot⟩ := (hA.findArm_of_stands h hp value).1
  cases harm.symm.trans harm'
  exact hspot

/-- Every entry point is a spot. -/
theorem spot_of_entry (hA : Assembled steps script T) {index : Nat}
    (h : script.entry index = .ok a) : Spot T a := by
  obtain ⟨pre, post, hsteps, hsize, -⟩ := hA.entry a (Script.mem_of_entry h)
  obtain ⟨k, cur, ctx, hplace, -⟩ := hA.exists_place hsteps
  rw [hsize] at hplace
  exact hplace.spot

end Assembled

/-! ### What a thread has saved -/

/-- Every address a level has saved has a property, whether its slot is in use or not. -/
structure Level.Saves (P : Nat → Prop) (l : Level) : Prop where
  stack : ∀ i : Fin blockDepth, P (l.stack.get i)
  returnTo : P l.returnTo
  breakTo : ∀ k : Fin loopDepth, P (l.frames.get k).breakTo
  body : ∀ k : Fin loopDepth, P (l.frames.get k).body

/-- Every address a thread has saved has a property, on every level. -/
def Thread.Saves (P : Nat → Prop) (t : Thread) : Prop :=
  ∀ s : Fin levelCount, (t.levels.get s).Saves P

namespace Level.Saves

variable {P : Nat → Prop} {l : Level}

theorem initial (h : P 0) : ({} : Level).Saves P where
  stack := fun i => by simpa [get_eq_getElem] using h
  returnTo := h
  breakTo := fun k => by simpa [get_eq_getElem] using h
  body := fun k => by simpa [get_eq_getElem] using h

/-- The counters of a level are not addresses. -/
theorem withCounters (h : l.Saves P) (ifCounter loopLevel : Int) :
    ({ l with ifCounter := ifCounter, loopLevel := loopLevel } : Level).Saves P :=
  ⟨h.stack, h.returnTo, h.breakTo, h.body⟩

theorem setStack (h : l.Saves P) {i resume : Nat} (hi : i < blockDepth) (hr : P resume)
    (ifCounter : Int) :
    ({ l with stack := l.stack.set i resume hi, ifCounter := ifCounter } : Level).Saves P where
  stack := fun j => by
    simp only [get_eq_getElem, Vector.getElem_set]
    split
    · exact hr
    · exact h.stack j
  returnTo := h.returnTo
  breakTo := h.breakTo
  body := h.body

theorem setFrame (h : l.Saves P) {i : Nat} (hi : i < loopDepth) (frame : Frame)
    (hbreak : P frame.breakTo) (hbody : P frame.body) (loopLevel : Int) :
    ({ l with frames := l.frames.set i frame hi, loopLevel := loopLevel } : Level).Saves P where
  stack := h.stack
  returnTo := h.returnTo
  breakTo := fun j => by
    simp only [get_eq_getElem, Vector.getElem_set]
    split
    · exact hbreak
    · exact h.breakTo j
  body := fun j => by
    simp only [get_eq_getElem, Vector.getElem_set]
    split
    · exact hbody
    · exact h.body j

end Level.Saves

namespace Thread.Saves

variable {P : Nat → Prop} {t t' : Thread}

theorem current (h : t.Saves P) : t.level.Saves P := h t.sub

theorem setLevel (h : t.Saves P) {l : Level} (hl : l.Saves P) : (t.setLevel l).Saves P := by
  intro s
  rw [levels_setLevel]
  split
  · exact hl
  · exact h s

theorem pushBlock (h : t.Saves P) {resume : Nat} (hr : P resume)
    (ht : t.pushBlock resume = .ok t') : t'.Saves P := by
  obtain ⟨i, -, rfl⟩ := pushBlock_eq_ok ht
  exact h.setLevel (h.current.setStack i.isLt hr _)

theorem popBlock (h : t.Saves P) {res : Except Fault Nat} (ht : t.popBlock = (t', res)) :
    t'.Saves P ∧ ∀ resume, res = .ok resume → P resume := by
  obtain ⟨-, rfl, rfl⟩ | ⟨-, rfl, ⟨i, -, rfl⟩ | ⟨-, rfl⟩⟩ := popBlock_cases ht
  · exact ⟨h, nofun⟩
  · refine ⟨h.setLevel (h.current.withCounters _ _), fun resume hres => ?_⟩
    cases hres
    exact h.current.stack i
  · exact ⟨h.setLevel (h.current.withCounters _ _), nofun⟩

theorem pushLoop (h : t.Saves P) {frame : Frame} (hbreak : P frame.breakTo) (hbody : P frame.body)
    (ht : t.pushLoop frame = .ok t') : t'.Saves P := by
  obtain ⟨k, -, rfl⟩ := pushLoop_eq_ok ht
  exact h.setLevel (h.current.setFrame k.isLt _ hbreak hbody _)

theorem countDown (h : t.Saves P) (k : Fin loopDepth) : (t.countDown k).Saves P :=
  h.setLevel (h.current.setFrame k.isLt
    { t.level.frames.get k with counter := (t.level.frames.get k).counter - 1 }
    (h.current.breakTo k) (h.current.body k) _)

theorem dropLoop (h : t.Saves P) : t.dropLoop.Saves P :=
  h.setLevel (h.current.withCounters _ _)

theorem breakOut (h : t.Saves P) (frame : Frame) : (t.breakOut frame).Saves P :=
  h.setLevel (h.current.withCounters _ _)

theorem activate (h : t.Saves P) (pc : Nat) : (t.activate pc).Saves P := by
  intro s
  simp only [Thread.activate, Thread.jump, get_eq_getElem, Vector.getElem_set]
  split
  · exact (h 0).withCounters _ _
  · exact h s

theorem enterSubroutine (h : t.Saves P) {returnTo target : Nat} (hr : P returnTo)
    (ht : t.enterSubroutine returnTo target = .ok t') : t'.Saves P := by
  obtain ⟨s, -, rfl⟩ := enterSubroutine_eq_ok ht
  have hcaller : (t.climb returnTo s).Saves P := h.setLevel { h.current with returnTo := hr }
  exact hcaller.setLevel ((hcaller s).withCounters _ _)

theorem leaveSubroutine (h : t.Saves P) (ht : t.leaveSubroutine = some t') :
    t'.Saves P ∧ P t'.pc ∧ t'.overridden = true := by
  obtain ⟨s, -, rfl⟩ := leaveSubroutine_eq_some ht
  exact ⟨h, (h s).returnTo, rfl⟩

end Thread.Saves

/-! ### The invariant -/

/-- **A thread stands and has been at places of the tree only.** -/
structure Thread.Aligned (T : Code .row) (t : Thread) : Prop where
  pc : Spot T t.pc ∨ Waits T t.pc
  saves : t.Saves (Spot T)

namespace Thread.Aligned

variable {steps : List Step} {script : Script} {T : Code .row} {t t' : Thread} {op : Opcode}
  {raw : Bytes} {view : Host.View}

theorem idle (T : Code .row) (id : Nat) : (Thread.idle id).Aligned T where
  pc := .inl (.zero T)
  saves := fun s => by
    simp only [Thread.idle, get_eq_getElem, Vector.getElem_replicate]
    exact .initial (.zero T)

theorem congr (h : Same t t') (ht : t.Aligned T) : t'.Aligned T where
  pc := by rw [h.pc]; exact ht.pc
  saves := fun s => by rw [h.levels]; exact ht.saves s

/-- A thread stands at the instruction it fetches, unless it is inside a sleep. -/
theorem stands (hA : Assembled steps script T) (h : t.Aligned T)
    (hf : script.fetch t.pc = .ok (op, raw)) (hop : op ≠ .sleeping) : Stands T t.pc op raw := by
  rcases h.pc with hspot | hw
  · exact hA.stands_of_fetch hspot hf
  · obtain ⟨⟨raw', hf'⟩, -⟩ := hA.fetch_of_waits hw
    rw [hf] at hf'
    cases hf'
    exact absurd rfl hop

/-- A thread that has placed its address stays there. -/
theorem moveOn_jump (h : t.Saves (Spot T)) {pc : Nat} (hpc : Spot T pc ∨ Waits T pc) (size : Nat) :
    ((t.jump pc).moveOn size).Aligned T := ⟨hpc, h⟩

/-- A thread that has not placed its address is moved on. -/
theorem moveOn_next (h : t.Saves (Spot T)) {size : Nat} (ho : t.overridden = false)
    (hpc : Spot T (t.pc + size)) : (t.moveOn size).Aligned T :=
  ⟨.inl (by simpa [Thread.moveOn, ho] using hpc), h⟩

/-- The instruction inside a sleep keeps its thread there or wakes it. -/
theorem effect_waits (hA : Assembled steps script T) (h : t.Aligned T) (hw : Waits T t.pc)
    (hf : script.fetch t.pc = .ok (op, raw)) {res : Except Fault Flow}
    (he : Effect script view t op raw t' res) :
    ((t'.moveOn op.size).Aligned T ∧ ∃ flow, res = .ok flow) ∨ (t' = t ∧ ∃ f, res = .error f) := by
  obtain ⟨⟨raw', hf'⟩, hbehind⟩ := hA.fetch_of_waits hw
  rw [hf] at hf'
  cases hf'
  obtain ⟨k, -, rfl, rfl⟩ | ⟨k, -, rfl, rfl⟩ | ⟨-, rfl, hres⟩ := he.sleeping_cases
  · exact .inl ⟨moveOn_jump (h.saves.countDown k) (.inr hw) _, _, rfl⟩
  · exact .inl ⟨moveOn_jump (h.saves.countDown k).dropLoop (.inl hbehind) _, _, rfl⟩
  · exact .inr ⟨rfl, hres⟩

/-- **An instruction moves its thread to a place, and saves places.** -/
theorem effect_ok (hA : Assembled steps script T) (h : t.Aligned T) (ho : t.overridden = false)
    (hf : script.fetch t.pc = .ok (op, raw)) {flow : Flow}
    (he : Effect script view t op raw t' (.ok flow)) : (t'.moveOn op.size).Aligned T := by
  rcases h.pc with hspot | hw
  case inr =>
    rcases h.effect_waits hA hw hf he with ⟨h', -⟩ | ⟨-, f, hf⟩
    · exact h'
    · exact nomatch hf
  have hst := hA.stands_of_fetch hspot hf
  have hnext := hst.next
  -- Each address a rule saves or goes to is a spot: it is behind the instruction, or what the
  -- offset of the instruction stands for, or it has been saved before.
  cases he with
  | passes _ | fails _ => exact moveOn_next h.saves ho hnext
  | selects w => exact moveOn_next (t := { t with workSet := w }) h.saves ho hnext
  | returns ht =>
    obtain ⟨hs, hpc, hov⟩ := h.saves.leaveSubroutine ht
    exact ⟨.inl (by simpa [Thread.moveOn, hov] using hpc), hs⟩
  | ends _ => exact moveOn_next (t := t.halt) h.saves ho hnext
  | opensIf hp ht =>
    obtain ⟨hpc, hov⟩ := place_of_pushBlock ht
    exact moveOn_next (h.saves.pushBlock (hst.resume hA.fits hp) ht) (hov.trans ho) (hpc ▸ hnext)
  | skipsElse hp ht =>
    have hpop := (h.saves.popBlock ht).1
    rw [(place_of_popBlock ht).1]
    exact moveOn_jump hpop (.inl (hst.skipElse hA.fits hp)) _
  | closesIf ht =>
    obtain ⟨hpc, hov⟩ := place_of_popBlock ht
    exact moveOn_next (h.saves.popBlock ht).1 (hov.trans ho) (hpc ▸ hnext)
  | sleeps hp ht =>
    rw [(place_of_pushLoop ht).1]
    exact moveOn_jump (h.saves.pushLoop (.zero T) (.zero T) ht) (.inr hst.waits) _
  | dozes _ _ _ | wakes _ _ _ => exact hst.not_sleeping.elim
  | skipsLoop hp _ => exact moveOn_jump h.saves (.inl (hst.breakLoop hA.fits hp)) _
  | opensLoop hp _ ht =>
    exact moveOn_jump (h.saves.pushLoop (hst.breakLoop hA.fits hp) hnext ht) (.inl hnext) _
  | loopsOn k hk _ => exact moveOn_jump (h.saves.countDown k) (.inl (h.saves.current.body k)) _
  | leavesLoop k hk _ => exact moveOn_jump (h.saves.countDown k).dropLoop (.inl hnext) _
  | breaks k hk =>
    exact ⟨.inl (h.saves.current.breakTo k), h.saves.breakOut _⟩
  | takesArm hp ht ha =>
    have hopened := h.saves.pushLoop (hst.breakSwitch hA.fits hp).1 hnext ht
    exact moveOn_jump hopened (.inl (hA.spot_of_findArm hst hp ha)) _
  | takesNone hp ht ha =>
    have hopened := h.saves.pushLoop (hst.breakSwitch hA.fits hp).1 hnext ht
    exact moveOn_jump hopened.dropLoop (.inl (hA.spot_of_findArm hst hp ha)) _
  | closesSwitch k hk => exact moveOn_next h.saves.dropLoop ho hnext
  | calls he ht =>
    obtain ⟨hpc, hov⟩ := place_of_enterSubroutine ht
    have hs : t'.Saves (Spot T) := h.saves.enterSubroutine hnext ht
    refine ⟨.inl ?_, hs⟩
    simpa [Thread.moveOn, hov, hpc] using hA.spot_of_entry he

/-- An instruction that faults leaves its thread at its place. -/
theorem effect_error (hA : Assembled steps script T) (h : t.Aligned T)
    (hf : script.fetch t.pc = .ok (op, raw)) {f : Fault}
    (he : Effect script view t op raw t' (.error f)) : t'.Aligned T := by
  cases he with
  | balks _ _ | tooManyIfs _ | tooManyLoops _ _ | noLoop _ _ | noEntry _ | tooDeep _ => exact h
  | noIf _ ht => exact ⟨by rw [(place_of_popBlock ht).1]; exact h.pc, (h.saves.popBlock ht).1⟩
  | losesArm hp ht ha =>
    have hst := h.stands hA hf nofun
    refine ⟨by rw [(place_of_pushLoop ht).1]; exact h.pc, ?_⟩
    exact h.saves.pushLoop (hst.breakSwitch hA.fits hp).1 hst.next ht

theorem follow (h : t.Aligned T) (flow : Flow) : (t.follow flow).1.Aligned T := by
  obtain ⟨_, heq⟩ | ⟨-, ⟨_, _, hp, heq⟩ | ⟨_, resume, hp, heq⟩⟩ := follow_cases t flow <;> rw [heq]
  · exact h
  · exact ⟨by rw [(place_of_popBlock hp).1]; exact h.pc, (h.saves.popBlock hp).1⟩
  · exact ⟨.inl ((h.saves.popBlock hp).2 resume rfl), (h.saves.popBlock hp).1⟩

end Thread.Aligned

/-- **Threads that run an assembled script stay at its places.** -/
theorem Thread.aligned_invariant {steps : List Step} {script : Script} {T : Code .row}
    (hA : Assembled steps script T) : Invariant script (Aligned T) where
  congr := Aligned.congr
  activate := fun he h => ⟨.inl (hA.spot_of_entry he), h.saves.activate _⟩
  event := fun hf h => ⟨.inl (h.stands hA hf nofun).next, h.saves⟩
  turn := by
    intro view t op raw t' res hf _ hturn h
    have hready : t.ready.Aligned T := Aligned.congr (.ready t) h
    cases hturn with
    | fault he => exact hready.effect_error hA hf he
    | flow he => exact (hready.effect_ok hA rfl hf he).follow _

/-! ### Faults of the code -/

/-- The faults of bytes that are no code, or not the code that is looked for. -/
def Fault.isCode : Fault → Bool
  | .unknownOpcode .. | .truncated .. | .pcOutOfRange .. | .unexpectedSwitchOpcode .. => true
  | _ => false

/-- A fetch fails for the code alone. -/
theorem Script.isCode_of_fetch {script : Script} {pc : Nat} {f : Fault}
    (h : script.fetch pc = .error f) : f.isCode = true := by
  unfold fetch at h
  split at h
  · cases h; rfl
  · split at h
    · cases h; rfl
    · split at h
      · exact nomatch h
      · cases h; rfl

section Faults

variable {steps : List Step} {script : Script} {T : Code .row} {t t' : Thread} {op : Opcode}
  {raw : Bytes} {view : Host.View} {f : Fault}

/-- No instruction faults for its code. -/
theorem Thread.Aligned.effect_isCode (hA : Assembled steps script T) (h : t.Aligned T)
    (hf : script.fetch t.pc = .ok (op, raw)) (he : Effect script view t op raw t' (.error f)) :
    f.isCode = false := by
  cases he with
  | balks _ hvalue => cases f <;> first | rfl | exact nomatch hvalue
  | tooManyIfs ht => rw [fault_of_pushBlock ht]; rfl
  | noIf _ ht => rw [fault_of_popBlock ht]; rfl
  | tooManyLoops _ ht => rcases fault_of_pushLoop ht with rfl | rfl <;> rfl
  | losesArm hp ht ha =>
    obtain ⟨arm, harm, -⟩ := (hA.findArm_of_stands (h.stands hA hf nofun) hp _).1
    rw [ha] at harm
    exact nomatch harm
  | noLoop _ _ => rfl
  | noEntry he => rw [Script.fault_of_entry he]; rfl
  | tooDeep ht => rw [fault_of_enterSubroutine ht]; rfl

/-- A turn never faults for its code. -/
theorem Machine.turn_isCode {n : Nat} {σ : Type} [Host σ] {rules : Rules}
    (hstd : rules.handlers = Handler.standard) (hA : Assembled steps script T) {m : Machine n σ}
    {i : Fin n} (h : (m.pool.thread i).Aligned T)
    (hf : script.fetch (m.pool.thread i).pc = .ok (op, raw))
    (hres : (m.turn rules script i op raw).2 = .error f) : f.isCode = false := by
  have hw := Script.whole_of_fetch hf
  by_cases hop : op = .evtExec
  · subst hop
    rcases m.turn_event script i hstd hw with
      ⟨_, _, _, _, _, hok⟩ | ⟨g, _, herr, hg⟩
    · rw [hok] at hres
      exact nomatch hres
    · rw [herr] at hres
      cases hres
      rcases hg with ⟨e, rfl⟩ | rfl <;> rfl
  -- a condition that fails has its effect without a fault, but may have no block to go back to
  · obtain ⟨t, -, hturn⟩ := m.turn_local script i hstd hw hop
    rw [hres] at hturn
    generalize hout : (Except.error f : Except Fault Machine.Pulse) = out at hturn
    cases hturn with
    | fault he =>
      cases hout
      exact Thread.Aligned.effect_isCode hA (Thread.Aligned.congr (.ready _) h) hf he
    | flow he => rw [Thread.fault_of_follow hout.symm]; rfl

end Faults

/-! ### Instructions and the steps that wrote them -/

/-- The address is the start of an instruction that one of the steps has written. -/
def Builder.StartsAt (steps : List Step) (a : Nat) : Prop :=
  ∃ pre s post, steps = pre ++ s :: post ∧ (run pre).code.size = a ∧
    a < (run (pre ++ [s])).code.size

/-- The address is the byte behind the opcode of a sleep. -/
def Builder.SleepsAt (steps : List Step) (a : Nat) : Prop :=
  ∃ pre ticks post, steps = pre ++ .sleep ticks :: post ∧ a = (run pre).code.size + 1

namespace Assembled

variable {steps : List Step} {script : Script} {T : Code .row} {a : Nat} {op : Opcode}
  {raw : Bytes}

theorem startsAt (hA : Assembled steps script T) (h : Stands T a op raw) :
    Builder.StartsAt steps a := by
  obtain ⟨k, pre', cur, ctx, bytes, hplace, hemits, -⟩ := h
  obtain ⟨s, k', cur', ctx', hnext⟩ := hplace.step_of_emits hemits
  -- the place is told by steps as they are written; the steps as they were given follow them
  have hwritten := hnext.steps_eq
  rw [hA.steps_eq, List.append_assoc] at hwritten
  obtain ⟨pre, post, hsteps, rfl, hpast⟩ := Builder.exists_of_written hwritten
  refine ⟨pre, s, post, hsteps, ?_, ?_⟩
  · rw [← Builder.code_written]
    exact (hplace.size_run hA.error_eq).1
  · rw [← Builder.code_written, hpast, (hnext.size_run hA.error_eq).1]
    have := op.size_pos
    omega

theorem sleepsAt (hA : Assembled steps script T) (h : Waits T a) : Builder.SleepsAt steps a := by
  obtain ⟨pre', b, s, ticks, rest, ctx, hplace, hs, rfl⟩ := h
  have hwritten := hplace.steps_eq
  rw [hA.steps_eq, Code.steps, List.cons_append, hs] at hwritten
  obtain ⟨pre, post, hsteps, rfl, -⟩ := Builder.exists_of_written hwritten
  refine ⟨pre, ticks, post, hsteps, ?_⟩
  rw [← Builder.code_written, (hplace.size_run hA.error_eq).1]

end Assembled

section Fetches

variable {steps : List Step} {script : Script} {T : Code .row} (hA : Assembled steps script T)

include hA

/-- Where a thread can stand, in terms of the steps. -/
theorem Thread.Aligned.startsAt {t : Thread} (h : t.Aligned T) :
    Builder.StartsAt steps t.pc ∨ Builder.SleepsAt steps t.pc ∨ t.pc = script.data.size := by
  rcases h.pc with hspot | hw
  · rcases hA.fetch_of_spot hspot with ⟨op, raw, -, hst⟩ | ⟨hend, -⟩
    · exact .inl (hA.startsAt hst)
    · exact .inr (.inr hend)
  · exact .inr (.inl (hA.sleepsAt hw))

/-- The search for an arm looks at the instructions of the steps. -/
theorem Thread.Aligned.startsAt_of_scanned {t : Thread} (h : t.Aligned T) {raw : Bytes}
    {p : Switch} (hf : script.fetch t.pc = .ok (.switch, raw)) (hp : decode Switch raw = .ok p)
    (value : Int32) :
    ∀ a ∈ Control.scanned script value (t.pc + Opcode.switch.size), Builder.StartsAt steps a := by
  intro a ha
  obtain ⟨op, raw', hst⟩ := (hA.findArm_of_stands (h.stands hA hf nofun) hp value).2 a ha
  exact hA.startsAt hst

/-- **A thread is stopped for the code at the end of the script alone.** -/
theorem Machine.StoppedBy.at_end {n : Nat} {σ : Type} [Host σ] {m : Machine n σ} {rules : Rules}
    (hstd : rules.handlers = Handler.standard) {i : Fin n} (h : (m.pool.thread i).Aligned T)
    {f : Fault} (hstop : m.StoppedBy rules script i f) (hcode : f.isCode = true) :
    f = .pcOutOfRange script.data.size script.data.size := by
  obtain hfetch | ⟨executed, hbudget⟩ | ⟨op, raw, hf, hturn⟩ := hstop
  -- a fetch fails behind the last instruction only: not within the code, and not in a sleep
  · rcases h.pc with hspot | hw
    · rcases hA.fetch_of_spot hspot with ⟨op, raw, hf, -⟩ | ⟨hend, hf⟩
      · rw [hf] at hfetch
        exact nomatch hfetch
      · rw [hf] at hfetch
        cases hfetch
        rw [hend]
    · obtain ⟨⟨raw', hf'⟩, -⟩ := hA.fetch_of_waits hw
      rw [hf'] at hfetch
      exact nomatch hfetch
  · obtain ⟨budget, rfl⟩ := fault_of_overBudget hbudget
    exact nomatch hcode
  · rw [turn_isCode hstd hA h hf hturn] at hcode
    exact nomatch hcode

end Fetches

/-- **Assembled code is only entered at its instructions.** Take a script that is assembled from
named steps, with every switch followed at once by an arm or its end, and anything that is done with
it on a new engine. Every address that a thread fetches from is the start of an instruction, the
byte behind the opcode of a sleep, or the end of the script, and every address that the search for
an arm fetches from is the start of an instruction. So a pass is not stopped for the code, except at
the end of the script. -/
theorem Engine.fetches_aligned {σ : Type} [Host σ] {steps : List Step} {script : Script}
    (hnamed : ∀ s ∈ steps, s.isNamed = true)
    (harms : Step.armsFirst (Builder.written steps) = true)
    (hbuild : (Builder.run steps).build = .ok script) (config : Config) (traces : TraceSet)
    (host : σ) {calls : List (Call σ)} (hcalls : ∀ c ∈ calls, ∀ s ∈ c.scripts, s = script)
    (fuel : Nat) :
    let e := (Engine.ofConfig config traces host).run calls
    (∀ v ∈ e.visits (.pass script fuel),
      let pc := (v.2.pool.thread v.1).pc
      (Builder.StartsAt steps pc ∨ Builder.SleepsAt steps pc ∨ pc = script.data.size) ∧
        ∀ raw p, script.fetch pc = .ok (.switch, raw) → decode Switch raw = .ok p →
          ∀ a ∈ Control.scanned script (Host.var v.2.host p.var) (pc + Opcode.switch.size),
            Builder.StartsAt steps a) ∧
    ∀ f, (e.machine.pass e.rules script fuel).2 = .error (.fault f) →
      f.isCode = true → f = .pcOutOfRange script.data.size script.data.size := by
  intro e
  obtain ⟨T, hA⟩ := Assembled.of_build hnamed harms hbuild
  have hstd : e.rules.handlers = Handler.standard :=
    handlers_run_ofConfig config traces host calls
  have hinv := Thread.aligned_invariant hA
  have hrun : ∀ j, (e.machine.pool.thread j).Aligned T :=
    run_invariant rfl Thread.Aligned.congr
      (fun c hc s hs => by rw [hcalls c hc s hs]; exact hinv)
      (ofConfig_invariant (.idle T) config traces host)
  have hvisit := visits_invariant (c := .pass script fuel) hstd
    (fun s hs => by rw [List.mem_singleton.mp hs]; exact hinv) hrun
  refine ⟨fun v hv => ⟨(hvisit v hv v.1).startsAt hA, ?_⟩, ?_⟩
  · intro raw p hf hp
    exact (hvisit v hv v.1).startsAt_of_scanned hA hf hp _
  · intro f hstop hcode
    obtain ⟨v, hv, hstopped⟩ := Machine.pass_stoppedBy hstop
    exact hstopped.at_end hA hstd (hvisit v hv v.1) hcode

/-- A switch that has no arm for the value, and a sleep at the end of the script. -/
def Script.drowsy : Script where
  data := #[0x13, 0, 8, 0, 0x14, 0, 0, 0, 1, 0, 0x16, 0, 0x09, 0x0a, 2, 0]
  entries := [0]
  entries_lt := by decide

/-- The arm is passed over, the sleep is entered at its second byte, and once it is over the thread
stands behind the last byte, where the next pass stops it. -/
theorem Engine.fetches_aligned_drowsy :
    let steps : List Step := [.switch 0, .caseArm 1, .endSwitch, .sleep 2]
    let start : Call Stage := .start .drowsy 0 0
    let pass : Call Stage := .pass .drowsy 9
    let e := (Engine.ofConfig {} {} ({} : Stage)).run [start]
    let e' := (Engine.ofConfig {} {} ({} : Stage)).run [start, pass, pass]
    (Builder.run steps).build = .ok .drowsy ∧
      ((e.visits pass).map fun v => (v.2.pool.thread v.1).pc) = [0, 12, 13] ∧
      (∀ v ∈ e.visits pass, Builder.StartsAt steps (v.2.pool.thread v.1).pc ∨
        Builder.SleepsAt steps (v.2.pool.thread v.1).pc ∨
        (v.2.pool.thread v.1).pc = Script.drowsy.data.size) ∧
      ∃ f, (e'.machine.pass e'.rules .drowsy 9).2 = .error (.fault f) ∧ f.isCode = true ∧
        f = .pcOutOfRange Script.drowsy.data.size Script.drowsy.data.size := by
  intro steps start pass e e'
  have hbuild : (Builder.run steps).build = .ok .drowsy := by decide +kernel
  have hcalls : ∀ calls : List (Call Stage), calls = [start] ∨ calls = [start, pass, pass] →
      ∀ c ∈ calls, ∀ s ∈ c.scripts, s = Script.drowsy := by
    rintro calls (rfl | rfl) <;> simp [start, pass, Call.scripts]
  have hfirst := fetches_aligned (by decide) (by decide) hbuild {} {} ({} : Stage)
    (hcalls [start] (.inl rfl)) 9
  have hlast := fetches_aligned (by decide) (by decide) hbuild {} {} ({} : Stage)
    (hcalls [start, pass, pass] (.inr rfl)) 9
  have hfault : (e'.machine.pass e'.rules .drowsy 9).2 = .error (.fault (.pcOutOfRange 16 16)) := by
    decide +kernel
  exact ⟨hbuild, by decide +kernel, fun v hv => (hfirst.1 v hv).1, .pcOutOfRange 16 16, hfault, rfl,
    hlast.2 _ hfault rfl⟩

end RoomScript
