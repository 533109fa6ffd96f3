import RoomScript.Proofs.Dispatch
import RoomScript.Proofs.Keeping
import RoomScript.Proofs.Meaning
import RoomScript.Proofs.Statements
import RoomScript.Session

/-!
# Structured scripts execute as written

A structured script is made of statements, ifs, loops and switches, its conditions standing directly
in a then-part and its breaks in a loop or switch. What it means is `Code.exec`, which knows trees
and nothing else. What a thread does with it is a matter of addresses, of lengths that the assembler
has patched in, of the block stack and of loop frames. The two agree.

The thread follows the tree: it stands at a place with the blocks around it open, and a piece of
code takes it to the place behind, or out of a then-part, or out of a loop or switch, or to its end,
just as the meaning of the code says. Each construct is a few turns of the dispatcher around the
runs of its parts, so the proof goes along the tree with one lemma for each construct. The count of
a loop is the one thing a place does not tell: it is in the frame of the loop, and every part of the
body leaves the frames of the blocks around it alone.

**Main statements.** `Setting.runs`: the dispatcher does with a piece of code what it means.
`Engine.structured_executes_as_written`: a pass over a structured script comes to its end, having
made the writes that its meaning makes, and no others.
-/

namespace RoomScript

open Code Layout Payload Play

/-! ### Structured steps -/

/-- Where the steps of a structured script may stand, with these blocks around them from the
innermost on: conditions directly in a then-part, breaks in a loop or switch, and blocks no deeper
than the two stacks. Steps without a name, and those that wait or reach for other parts of the
script, may stand nowhere. -/
def Step.structured (around : List Shape) : Step → Bool
  | .entry | .instruction .. | .raw _ | .sleep _ | .gosub _ | .evtExec .. => false
  | .check .. | .compare .. => around.head? = some .thenPart
  | .breakLoop => around.any Shape.isLoop
  | .ifStart => around.count .thenPart < blockDepth
  | .forLoop _ | .switch _ => around.countP Shape.isLoop < loopDepth
  | _ => true

theorem Step.head?_of_structured {around : List Shape} {s : Step} (h : s.isCondition = true)
    (hs : s.structured around = true) : around.head? = some .thenPart := by
  cases s with
  | check | compare => exact of_decide_eq_true hs
  | _ => exact nomatch h

/-- **A thread of a pool runs a structured script**, by the standard rules and without a budget. -/
structure Setting (n : Nat) where
  rules : Rules
  script : Script
  pool : Pool n
  /-- The place of the thread in the pool. -/
  i : Fin n
  steps : List Step
  T : Code .row
  handlers : rules.handlers = Handler.standard
  budget : rules.budget = none
  assembled : Assembled steps script T
  placed : ({} : Builder).along Step.structured T.steps = true

namespace Setting

variable {n : Nat} (w : Setting n) {pre post : List Step} {a : Nat} {cur : Code .row}
  {ctx : Context .row} {s : Step}

theorem structured (h : Place w.T pre a cur ctx) (hs : cur.steps ++ ctx.steps = s :: post) :
    s.structured ctx.shapes = true :=
  h.along w.placed w.assembled.error_eq hs

/-- There is room for an if. -/
theorem ifs_lt (h : Place w.T pre a cur ctx) (hs : cur.steps ++ ctx.steps = .ifStart :: post) :
    ctx.ifs < blockDepth :=
  of_decide_eq_true (w.structured h hs)

/-- There is room for a loop or a switch. -/
theorem loops_lt (h : Place w.T pre a cur ctx) (hs : cur.steps ++ ctx.steps = s :: post)
    (hloop : s.structured ctx.shapes = decide (ctx.loops < loopDepth)) : ctx.loops < loopDepth :=
  of_decide_eq_true (hloop.symm.trans (w.structured h hs))

end Setting

/-- Directly in a then-part a failed condition has somewhere to go on. -/
theorem Context.unwinds_of_head? {ctx : Context .row} (h : ctx.shapes.head? = some .thenPart) :
    ∃ cur ctx', ctx.Unwinds cur ctx' := by
  cases ctx with
  | thenOnly rest outer => exact ⟨_, _, .thenOnly⟩
  | thenElse other rest outer => exact ⟨_, _, .thenElse⟩
  | _ => exact nomatch h

/-! ### Threads at a place -/

/-- **A thread stands at a place**, with the blocks around it open and an entity selected. -/
structure Thread.Poised (T : Code .row) {k : Kind} (cur : Code k) (ctx : Context k)
    (selected : WorkSet) (t : Thread) : Prop where
  place : ∃ pre, Place T pre t.pc cur ctx
  keeps : t.Keeps T ctx ctx.loops
  selected : t.workSet = selected

/-- The frame in a slot has rounds to go. -/
def Level.Counts (l : Level) (i rounds : Nat) : Prop :=
  ∃ f, l.frames[i]? = some f ∧ f.counter = rounds

namespace Thread.Poised

variable {T : Code .row} {t : Thread} {selected : WorkSet} {rest : Code .row}
  {outer : Context .row}

/-- What is kept where the next instruction is executed. -/
theorem ready {k : Kind} {cur : Code k} {ctx : Context k} (h : t.Poised T cur ctx selected) :
    t.ready.Keeps T ctx ctx.loops := h.keeps.congr rfl rfl rfl

/-- The end of an else is the place behind it. -/
theorem pastElse (h : t.Poised T .done (.elsePart rest outer) selected) :
    t.Poised T rest outer selected := by
  obtain ⟨pre, hplace⟩ := h.place
  refine ⟨⟨_, hplace.pastElse⟩, ?_, h.selected⟩
  have hkeeps := h.keeps.sheds (.elsePart .refl)
  rwa [Context.loops_elsePart] at hkeeps

/-- The end of an arm is the place of the next one. -/
theorem pastArm {more : Code .arms} {outer : Context .arms}
    (h : t.Poised T .done (.arm more outer) selected) : t.Poised T more outer selected := by
  obtain ⟨pre, hplace⟩ := h.place
  refine ⟨⟨_, hplace.pastArm⟩, ?_, h.selected⟩
  have hkeeps := h.keeps.sheds (.arm .refl)
  rwa [Context.loops_arm] at hkeeps

end Thread.Poised

namespace Setting

variable {n : Nat} (w : Setting n) {σ : Type} [Host σ]

/-- **The dispatcher takes a thread to a place**, and leaves the slots of the blocks around another
one alone. -/
def Reaches {k k' : Kind} (base : Context k') (cur : Code k) (ctx : Context k) (t : Thread)
    (host : σ) (g : Play σ) : Prop :=
  ∃ t', Machine.Leads w.rules w.script w.pool w.i t host t' g.host ∧
    t'.Poised w.T cur ctx g.selected ∧ Level.Below base.ifs base.loops t.level t'.level

/-- **The dispatcher does what a piece of code means**: from its end it goes on to some code with
the same blocks around it, after a condition that failed out of the innermost then-part, after a
break out of the innermost loop or switch. -/
def Fulfils {k : Kind} (next : Code k) (ctx : Context k) (t : Thread) (host : σ) :
    Play σ × Ending → Prop
  | (g, .done) => w.Reaches ctx next ctx t host g
  | (g, .failed) => ∃ cur ctx', ctx.Unwinds cur ctx' ∧ w.Reaches ctx' cur ctx' t host g
  | (g, .broke) => ∃ cur ctx', ctx.Breaks cur ctx' ∧ w.Reaches ctx' cur ctx' t host g
  | (g, .ended) => Machine.Stops w.rules w.script w.pool w.i t host g.host (.ok ())
  | (g, .fault f) => Machine.Stops w.rules w.script w.pool w.i t host g.host (.error f)

variable {w} {k k' : Kind} {cur : Code k'} {next : Code k} {ctx : Context k} {ctx' : Context k'}
  {t t' : Thread} {host host' : σ} {g : Play σ} {out : Play σ × Ending}

/-- Around fewer blocks there are fewer slots to leave alone. -/
theorem Reaches.mono {k₁ k₂ : Kind} {base : Context k₁} {base' : Context k₂}
    (h : w.Reaches base cur ctx' t host g) (hifs : base'.ifs ≤ base.ifs)
    (hloops : base'.loops ≤ base.loops) : w.Reaches base' cur ctx' t host g := by
  obtain ⟨u, hleads, hpoised, hbelow⟩ := h
  exact ⟨u, hleads, hpoised, hbelow.mono hifs hloops⟩

/-- What leads to a thread is put before what it does. -/
theorem Reaches.after {k : Kind} {base : Context k}
    (hleads : Machine.Leads w.rules w.script w.pool w.i t host t' host')
    (hbelow : Level.Below base.ifs base.loops t.level t'.level)
    (h : w.Reaches base cur ctx' t' host' g) : w.Reaches base cur ctx' t host g := by
  obtain ⟨u, hleads', hpoised, hbelow'⟩ := h
  exact ⟨u, hleads.trans hleads', hpoised, hbelow.trans hbelow'⟩

theorem Fulfils.after (hleads : Machine.Leads w.rules w.script w.pool w.i t host t' host')
    (hbelow : Level.Below ctx.ifs ctx.loops t.level t'.level)
    (h : w.Fulfils next ctx t' host' out) : w.Fulfils next ctx t host out := by
  obtain ⟨g, ending⟩ := out
  -- what is left of the blocks after a condition or a break is around fewer slots still
  cases ending with
  | done => exact Reaches.after hleads hbelow h
  | failed =>
    obtain ⟨cur, ctx', hunwinds, hreaches⟩ := h
    obtain ⟨hifs, hloops⟩ := hunwinds.depth_eq
    exact ⟨cur, ctx', hunwinds, hreaches.after hleads (hbelow.mono (by omega) (by omega))⟩
  | broke =>
    obtain ⟨cur, ctx', hbreaks, hreaches⟩ := h
    obtain ⟨hifs, hloops⟩ := hbreaks.depth_eq
    exact ⟨cur, ctx', hbreaks, hreaches.after hleads (hbelow.mono hifs (by omega))⟩
  | ended | fault => exact hleads.stops h

/-- From a place that is reached on. -/
theorem Reaches.fulfils (h : w.Reaches ctx cur ctx' t host g)
    (hnext : ∀ t', t'.Poised w.T cur ctx' g.selected → w.Fulfils next ctx t' g.host out) :
    w.Fulfils next ctx t host out := by
  obtain ⟨t', hleads, hpoised, hbelow⟩ := h
  exact .after hleads hbelow (hnext t' hpoised)

/-- Code behind code. -/
theorem Fulfils.andThen {mid : Code k} {f : Play σ → Play σ × Ending}
    (h : w.Fulfils mid ctx t host out)
    (hnext : ∀ (g : Play σ) t', t'.Poised w.T mid ctx g.selected →
      w.Fulfils next ctx t' g.host (f g)) :
    w.Fulfils next ctx t host (Play.andThen out f) := by
  obtain ⟨g, ending⟩ := out
  cases ending with
  | done => exact Reaches.fulfils h (hnext g)
  | _ => exact h

/-! ### One turn -/

section Turns

variable {n : Nat} {w : Setting n} {σ : Type} [Host σ] {k k' : Kind} {cur : Code k}
  {cur' : Code k'} {ctx : Context k} {ctx' : Context k'} {t t₁ : Thread} {host : σ} {g : Play σ}
  {op : Opcode} {bytes : List UInt8} {writes : List Write} {pre pre' : List Step}

/-- The dispatcher goes on from a place to where the handler of its instruction says. -/
theorem leads_of_turn {flow : Flow} {t' : Thread} (hplace : Place w.T pre t.pc cur ctx)
    (hemits : Emits cur ctx op bytes)
    (hd : Handler.Does w.script t.ready (Host.view host) op bytes.toArray t₁ writes (.ok flow))
    (hfollow : (t₁.moveOn op.size).follow flow = (t', .ok .running)) :
    Machine.Leads w.rules w.script w.pool w.i t host t' (Host.performAll host writes) :=
  .of_turn w.handlers w.budget (w.assembled.fetch_of_emits hplace hemits) hd hfollow

/-- A turn that is not a failed condition takes a thread from one place to another. -/
theorem Reaches.of_turn {k : Kind} {base : Context k} (hplace : Place w.T pre t.pc cur ctx)
    (hemits : Emits cur ctx op bytes)
    (hd : Handler.Does w.script t.ready (Host.view host) op bytes.toArray t₁ writes (.ok .next))
    (hplace' : Place w.T pre' (t₁.moveOn op.size).pc cur' ctx')
    (hkeeps : t₁.Keeps w.T ctx' ctx'.loops)
    (hbelow : Level.Below base.ifs base.loops t.level t₁.level)
    (hselected : t₁.workSet = g.selected) (hhost : Host.performAll host writes = g.host) :
    w.Reaches base cur' ctx' t host g := by
  have hleads := leads_of_turn hplace hemits hd rfl
  rw [hhost] at hleads
  exact ⟨_, hleads, ⟨⟨_, hplace'⟩, hkeeps.moveOn _, hselected⟩, hbelow⟩

end Turns

/-! Into ifs and out of them. -/

section Ifs

variable {n : Nat} {w : Setting n} {σ : Type} [Host σ] {ctx : Context .row} {t : Thread}
  {g : Play σ} {body other rest : Code .row}

theorem reaches_then (h : t.Poised w.T (.ifThen body rest) ctx g.selected) :
    w.Reaches ctx body (.thenOnly rest ctx) t g.host g := by
  obtain ⟨pre, hplace⟩ := h.place
  have hroom := w.ifs_lt hplace rfl
  obtain ⟨p, hp⟩ : ∃ p, decode Block
      (Opcode.ifStart.header 0 (body.size + Opcode.endIf.size) []).toArray = .ok p :=
    ⟨_, decode_ifStart _⟩
  obtain ⟨pre', hresume⟩ := hplace.resume_ifThen w.assembled.fits hp
  have hkeeps := h.ready
  exact .of_turn hplace .ifThen (Handler.Does.ifStart hp (hkeeps.pushBlock hroom _)) hplace.intoThen
    (by rw [Context.loops_thenOnly]; exact hkeeps.openIf hroom hresume)
    (hkeeps.below_openIf _ _) h.selected rfl

theorem reaches_thenElse (h : t.Poised w.T (.ifElse body other rest) ctx g.selected) :
    w.Reaches ctx body (.thenElse other rest ctx) t g.host g := by
  obtain ⟨pre, hplace⟩ := h.place
  have hroom := w.ifs_lt hplace rfl
  obtain ⟨p, hp⟩ : ∃ p, decode Block
      (Opcode.ifStart.header 0 (Opcode.ifStart.size + body.size) []).toArray = .ok p :=
    ⟨_, decode_ifStart _⟩
  obtain ⟨pre', hresume⟩ := hplace.resume_ifElse w.assembled.fits hp
  have hkeeps := h.ready
  exact .of_turn hplace .ifElse (Handler.Does.ifStart hp (hkeeps.pushBlock hroom _))
    hplace.intoThenElse (by rw [Context.loops_thenElse]; exact hkeeps.openIfElse hroom hresume)
    (hkeeps.below_openIf _ _) h.selected rfl

/-- From the end of the then-part of an if without an else. -/
theorem reaches_endIf (h : t.Poised w.T .done (.thenOnly rest ctx) g.selected) :
    w.Reaches ctx rest ctx t g.host g := by
  obtain ⟨pre, hplace⟩ := h.place
  have hkeeps := h.ready
  rw [Context.loops_thenOnly] at hkeeps
  obtain ⟨hclosed, -, resume, hpop, -⟩ := hkeeps.closeIf .thenOnly
  exact .of_turn hplace .endIf (Handler.Does.endIf hpop) hplace.pastThen hclosed
    (Thread.below_closeIf t.ready _ _) h.selected rfl

/-- From the end of the then-part of an if with an else, which is skipped. -/
theorem reaches_elseStart (h : t.Poised w.T .done (.thenElse other rest ctx) g.selected) :
    w.Reaches ctx rest ctx t g.host g := by
  obtain ⟨pre, hplace⟩ := h.place
  obtain ⟨p, hp⟩ : ∃ p, decode Block
      (Opcode.elseStart.header 0 (Opcode.elseStart.size + other.size) []).toArray = .ok p :=
    ⟨_, decode_elseStart _⟩
  obtain ⟨pre', hskip⟩ := hplace.skip_else w.assembled.fits hp
  have hkeeps := h.ready
  rw [Context.loops_thenElse] at hkeeps
  obtain ⟨hclosed, -, resume, hpop, -⟩ := hkeeps.closeIf .thenElse
  exact .of_turn hplace .elseStart (Handler.Does.elseStart hp hpop) hskip
    ((hclosed.sheds (.elsePart .refl)).jump _) (Thread.below_closeIf t.ready _ _) h.selected rfl

end Ifs

/-! Into loops and switches and out of them. -/

section Loops

variable {n : Nat} {w : Setting n} {σ : Type} [Host σ] {ctx : Context .row} {t : Thread}
  {g : Play σ} {count : UInt16} {var : UInt8} {body rest : Code .row} {arms more : Code .arms}

/-- A loop without rounds is passed over. -/
theorem reaches_skipLoop (h : t.Poised w.T (.loop 0 body rest) ctx g.selected) :
    w.Reaches ctx rest ctx t g.host g := by
  obtain ⟨pre, hplace⟩ := h.place
  obtain ⟨p, hp⟩ : ∃ p, decode ForLoop (Opcode.forLoop.header 0 (body.size + Opcode.forEnd.size)
      (wordBytes 0)).toArray = .ok p := ⟨_, decode_forLoop _ _⟩
  obtain ⟨hcount, _, hbreak⟩ := hplace.break_loop w.assembled.fits hp
  have hkeeps := h.ready
  exact .of_turn hplace .loop (Handler.Does.skipLoop hp hcount) hbreak (hkeeps.jump _)
    (.of_eq rfl rfl) h.selected rfl

/-- The dispatcher takes a thread to the start of a round of a loop, with so many rounds to go. -/
def StartsRound (w : Setting n) (count : UInt16) (body rest : Code .row) (ctx : Context .row)
    (rounds : Nat) (t : Thread) (g : Play σ) : Prop :=
  ∃ t', Machine.Leads w.rules w.script w.pool w.i t g.host t' g.host ∧
    t'.Poised w.T body (.loop count body rest ctx) g.selected ∧
    Level.Below ctx.ifs ctx.loops t.level t'.level ∧ t'.level.Counts ctx.loops rounds

theorem startsRound_loop (h : t.Poised w.T (.loop count body rest) ctx g.selected)
    (hcount : count ≠ 0) : w.StartsRound count body rest ctx count.toNat t g := by
  obtain ⟨pre, hplace⟩ := h.place
  have hroom := w.loops_lt hplace rfl rfl
  obtain ⟨p, hp⟩ : ∃ p, decode ForLoop (Opcode.forLoop.header 0 (body.size + Opcode.forEnd.size)
      (wordBytes count)).toArray = .ok p := ⟨_, decode_forLoop _ _⟩
  obtain ⟨rfl, _, hbreak⟩ := hplace.break_loop w.assembled.fits hp
  have hkeeps := h.ready
  have hopened : (t.ready.openLoop (p.frame t.pc t.level.ifCounter)).Keeps w.T
      (.loop p.count body rest ctx) (ctx.loops + 1) :=
    hkeeps.openLoop hroom rfl hbreak hplace.intoLoop
  refine ⟨_, leads_of_turn hplace .loop
    (Handler.Does.openLoop hp hcount (hkeeps.pushLoop hroom _)) rfl,
    ⟨⟨_, hplace.intoLoop⟩, ?_, h.selected⟩, hkeeps.below_openLoop _ _,
    _, hkeeps.slot_openLoop hroom _, rfl⟩
  rw [Context.loops_loop]
  exact (hopened.jump _).moveOn _

/-- From the end of a round with more to come. -/
theorem startsRound_forEnd {m : Nat}
    (h : t.Poised w.T .done (.loop count body rest ctx) g.selected)
    (hcount : t.level.Counts ctx.loops (m + 2)) :
    w.StartsRound count body rest ctx (m + 1) t g := by
  obtain ⟨pre, hplace⟩ := h.place
  obtain ⟨f, hslot, hcounter⟩ := hcount
  have hkeeps := h.ready
  obtain ⟨⟨-, pre', f', hslot', -, -, hbody⟩, -⟩ := hkeeps.level.kept
  -- what counts the rounds is the frame that holds the address of the body
  obtain rfl : f' = f := Option.some.inj (hslot'.symm.trans hslot)
  obtain ⟨hi, rfl⟩ := Vector.getElem?_eq_some_iff.mp hslot
  have hopen : t.ready.level.openFrame? = some ⟨ctx.loops, hi⟩ := by
    rw [Context.loops_loop] at hkeeps
    exact hkeeps.openFrame? hi
  refine ⟨_, leads_of_turn hplace .forEnd (Handler.Does.loopOn hopen ?_) rfl,
    ⟨⟨_, hbody⟩, ((hkeeps.countDown _).jump _).moveOn _, h.selected⟩,
    Thread.below_countDown t.ready ⟨ctx.loops, hi⟩ _, _,
    Thread.slot_countDown t.ready ⟨ctx.loops, hi⟩, ?_⟩
  · change 1 < t.level.frames[ctx.loops].counter
    omega
  · change t.level.frames[ctx.loops].counter - 1 = _
    omega

/-- From the end of the last round. -/
theorem reaches_forEnd (h : t.Poised w.T .done (.loop count body rest ctx) g.selected)
    (hcount : t.level.Counts ctx.loops 1) : w.Reaches ctx rest ctx t g.host g := by
  obtain ⟨pre, hplace⟩ := h.place
  obtain ⟨f, hslot, hcounter⟩ := hcount
  obtain ⟨hi, rfl⟩ := Vector.getElem?_eq_some_iff.mp hslot
  have hkeeps := h.ready
  rw [Context.loops_loop] at hkeeps
  have hopen := hkeeps.openFrame? hi
  have hcounted := hkeeps.countDown ⟨ctx.loops, hi⟩
  refine .of_turn hplace .forEnd (Handler.Does.leaveLoop hopen (Int.le_of_eq hcounter))
    hplace.pastLoop ((hcounted.dropLoop (by simp) hcounted.level.kept.2).jump _) ?_ h.selected rfl
  exact (Thread.below_countDown t.ready ⟨ctx.loops, hi⟩ _).trans (Thread.below_dropLoop _ _ _)

/-! Into the arms of a switch. -/

/-- A switch goes on in the arm that takes the value of its variable. -/
theorem reaches_chosen (h : t.Poised w.T (.switch var arms rest) ctx g.selected)
    (hchosen : arms.chosen (Host.var g.host var) = some (body, more)) :
    w.Reaches ctx body (.arm more (.switch rest ctx)) t g.host g := by
  obtain ⟨pre, hplace⟩ := h.place
  have hroom := w.loops_lt hplace rfl rfl
  obtain ⟨p, hp⟩ : ∃ p, decode Switch
      (Opcode.switch.header var (arms.size + Opcode.endSwitch.size) []).toArray = .ok p :=
    ⟨_, decode_switch _ _⟩
  obtain ⟨rfl, _, hbreak⟩ := hplace.break_switch w.assembled.fits hp
  obtain ⟨hfind, -⟩ := w.assembled.findArm_eq hplace.intoSwitch (Host.var g.host p.var)
  obtain ⟨_, _, _, _, hchosen', htarget, harm⟩ | ⟨_, _, hnone, -⟩ :=
    hplace.intoSwitch.chosen (Host.var g.host p.var)
  · rw [hchosen] at hchosen'
    cases hchosen'
    rw [htarget] at hfind
    have hkeeps := h.ready
    have hopened : (t.ready.openLoop (p.frame t.pc t.level.ifCounter)).Keeps w.T (.switch rest ctx)
        (ctx.loops + 1) := hkeeps.openSwitch hroom rfl hbreak
    exact .of_turn hplace .switch (Handler.Does.takeArm hp (hkeeps.pushLoop hroom _) hfind) harm
      (by rw [Context.loops_arm, Context.loops_switch]; exact (hopened.arm more).jump _)
      (hkeeps.below_openLoop _ _) h.selected rfl
  · rw [hchosen] at hnone
    exact nomatch hnone

/-- A switch without an arm for the value of its variable is passed over. -/
theorem reaches_skipSwitch (h : t.Poised w.T (.switch var arms rest) ctx g.selected)
    (hchosen : arms.chosen (Host.var g.host var) = none) :
    w.Reaches ctx rest ctx t g.host g := by
  obtain ⟨pre, hplace⟩ := h.place
  have hroom := w.loops_lt hplace rfl rfl
  obtain ⟨p, hp⟩ : ∃ p, decode Switch
      (Opcode.switch.header var (arms.size + Opcode.endSwitch.size) []).toArray = .ok p :=
    ⟨_, decode_switch _ _⟩
  obtain ⟨rfl, _, hbreak⟩ := hplace.break_switch w.assembled.fits hp
  obtain ⟨hfind, -⟩ := w.assembled.findArm_eq hplace.intoSwitch (Host.var g.host p.var)
  obtain ⟨_, _, _, _, hsome, -⟩ | ⟨_, _, -, htarget, hbehind⟩ :=
    hplace.intoSwitch.chosen (Host.var g.host p.var)
  · rw [hchosen] at hsome
    exact nomatch hsome
  · rw [htarget] at hfind
    -- the frame of the switch is opened all the same, and closed again
    have hkeeps := h.ready
    have hopened : (t.ready.openLoop (p.frame t.pc t.level.ifCounter)).Keeps w.T (.switch rest ctx)
        (ctx.loops + 1) := hkeeps.openSwitch hroom rfl hbreak
    exact .of_turn hplace .switch (Handler.Does.takeNone hp (hkeeps.pushLoop hroom _) hfind) hbehind
      ((hopened.dropLoop (by simp) hopened.level.kept.2).jump _)
      ((hkeeps.below_openLoop _ _).trans (Thread.below_dropLoop _ _ _)) h.selected rfl

/-- From the end of the last arm. -/
theorem reaches_endSwitch
    (h : t.Poised w.T (.done : Code .arms) (.switch rest ctx) g.selected) :
    w.Reaches ctx rest ctx t g.host g := by
  obtain ⟨pre, hplace⟩ := h.place
  have hkeeps := h.ready
  rw [Context.loops_switch] at hkeeps
  obtain ⟨⟨-, f, hslot, -⟩, hkept⟩ := hkeeps.level.kept
  obtain ⟨hi, -⟩ := Vector.getElem?_eq_some_iff.mp hslot
  exact .of_turn hplace .endSwitch (Handler.Does.endSwitch (hkeeps.openFrame? hi))
    hplace.pastSwitch (hkeeps.dropLoop (by simp) hkept) (Thread.below_dropLoop t.ready _ _)
    h.selected rfl

/-- Into an arm from its header. -/
theorem reaches_arm {label : Option UInt16} {ctx : Context .arms}
    (h : t.Poised w.T (.arm label body more) ctx g.selected) :
    w.Reaches ctx body (.arm more ctx) t g.host g := by
  obtain ⟨pre, hplace⟩ := h.place
  exact .of_turn hplace (.arm rfl) (Handler.Does.arm label) hplace.intoArm
    (by rw [Context.loops_arm]; exact h.ready.arm more) (.of_eq rfl rfl) h.selected rfl

end Loops

/-! Statements, breaks and the end of the script. -/

section Statements

variable {n : Nat} {w : Setting n} {σ : Type} [Host σ] {ctx : Context .row} {t t₁ : Thread}
  {g : Play σ} {s : PlainStep} {rest : Code .row}

/-- A condition that fails closes the innermost if, and goes on where that says. -/
theorem reaches_unwind {cur : Code .row} {ctx' : Context .row} {op : Opcode} {bytes : List UInt8}
    {writes : List Write} {pre : List Step} (hplace : Place w.T pre t.pc (.step s rest) ctx)
    (hemits : Emits (.step s rest) ctx op bytes)
    (hd : Handler.Does w.script t.ready (Host.view g.host) op bytes.toArray t₁ writes (.ok .unwind))
    (hkeeps : t₁.Keeps w.T ctx ctx.loops) (hlevel : t₁.level = t.level)
    (hunwinds : ctx.Unwinds cur ctx') :
    w.Reaches ctx' cur ctx' t g.host ⟨Host.performAll g.host writes, t₁.workSet⟩ := by
  have hmoved := hkeeps.moveOn op.size
  obtain ⟨hclosed, _, resume, hpop, hresume⟩ := hmoved.closeIf hunwinds
  obtain ⟨hifs, hloops⟩ := hunwinds.depth_eq
  -- the then-part is open, so that the condition does not just yield
  have hopen : ¬ (t₁.moveOn op.size).level.ifCounter < 0 := by
    have := hmoved.level.ifCounter
    omega
  have hfollow : (t₁.moveOn op.size).follow .unwind =
      ({ (t₁.moveOn op.size).closeIf with pc := resume }, .ok .running) := by
    simp only [Thread.follow, if_neg hopen, hpop]
  refine ⟨_, leads_of_turn hplace hemits hd hfollow, ⟨⟨_, hresume⟩, ?_, rfl⟩, ?_⟩
  · rw [← hloops]
    exact hclosed.congr rfl rfl rfl
  · rw [← hlevel]
    exact Thread.below_closeIf (t₁.moveOn op.size) _ _

/-- A statement does what it says. -/
theorem fulfils_statement (hs : s.val.isStatement = true)
    (h : t.Poised w.T (.step s rest) ctx g.selected) :
    w.Fulfils rest ctx t g.host (g.carryOut s.val) := by
  obtain ⟨pre, hplace⟩ := h.place
  have hd := s.does hs w.script t.ready (Host.view g.host)
  have hselected : t.ready.workSet = g.selected := h.selected
  have hkeeps := h.ready
  have hemits : Emits (.step s rest) ctx s.op s.bytes := .step rfl
  rw [hselected] at hd
  rcases hending : g.carryOut s.val with ⟨g', ending⟩
  obtain ⟨rfl, rfl⟩ := Prod.mk.inj hending
  obtain hdone | ⟨f, hfault⟩ | ⟨hfailed, hcondition⟩ :=
    Step.ending_deed hs (Host.view g.host) g.selected
  · rw [hdone] at hd ⊢
    exact Reaches.of_turn hplace hemits hd hplace.pastStep (hkeeps.congr rfl rfl rfl)
      (.of_eq rfl rfl) rfl rfl
  · rw [hfault] at hd ⊢
    exact .of_fault w.handlers w.budget (w.assembled.fetch_of_emits hplace hemits) hd
  -- a structured condition stands in a then-part, which it fails out of
  · rw [hfailed] at hd ⊢
    obtain ⟨cur, ctx', hunwinds⟩ := Context.unwinds_of_head?
      (Step.head?_of_structured hcondition (w.structured hplace rfl))
    exact ⟨cur, ctx', hunwinds, reaches_unwind hplace hemits hd (hkeeps.congr rfl rfl rfl)
      rfl hunwinds⟩

/-- A break goes on behind the innermost loop or switch. -/
theorem fulfils_breakLoop (hs : s.val = .breakLoop)
    (h : t.Poised w.T (.step s rest) ctx g.selected) :
    w.Fulfils rest ctx t g.host (g.carryOut s.val) := by
  obtain ⟨pre, hplace⟩ := h.place
  have hplaced := w.structured hplace rfl
  obtain ⟨s, hplain⟩ := s
  cases hs
  have hpos : 0 < ctx.loops :=
    List.countP_pos_iff.mpr (List.any_eq_true.mp hplaced)
  obtain ⟨cur, ctx', hbreaks⟩ := Context.exists_breaks hpos
  obtain ⟨i, _, hopen, hkeeps, hbehind⟩ := h.ready.breakOut hbreaks
  refine ⟨cur, ctx', hbreaks, ?_⟩
  exact .of_turn hplace (.step rfl) (Handler.Does.breakLoop hopen) hbehind hkeeps
    (Thread.below_breakOut t.ready _ _ _) h.selected rfl

/-- The end of the script stops the thread. -/
theorem fulfils_evtEnd (hs : s.val = .evtEnd)
    (h : t.Poised w.T (.step s rest) ctx g.selected) :
    w.Fulfils rest ctx t g.host (g.carryOut s.val) := by
  obtain ⟨pre, hplace⟩ := h.place
  obtain ⟨s, hplain⟩ := s
  cases hs
  exact .of_halt w.handlers w.budget (w.assembled.fetch_of_emits hplace (.step rfl))
    (Handler.Does.evtEnd h.ready.sub) rfl

theorem fulfils_step (h : t.Poised w.T (.step s rest) ctx g.selected) :
    w.Fulfils rest ctx t g.host (g.carryOut s.val) := by
  obtain ⟨pre, hplace⟩ := h.place
  have hplaced := w.structured hplace rfl
  by_cases hs : s.val.isStatement = true
  · exact fulfils_statement hs h
  · obtain ⟨s, hplain⟩ := s
    cases s with
    | breakLoop => exact fulfils_breakLoop rfl h
    | evtEnd => exact fulfils_evtEnd rfl h
    | sleep | gosub | evtExec => exact nomatch hplaced
    | _ => exact nomatch hplain

end Statements

/-! ### Along the tree -/

/-! An else and an arm come to their end without a turn. -/

section Ends

variable {n : Nat} {w : Setting n} {σ : Type} [Host σ] {rest : Code .row} {t : Thread} {host : σ}
  {out : Play σ × Ending}

theorem Fulfils.pastElse {ctx : Context .row}
    (h : w.Fulfils .done (.elsePart rest ctx) t host out) : w.Fulfils rest ctx t host out := by
  obtain ⟨g, ending⟩ := out
  cases ending with
  | done =>
    obtain ⟨t', hleads, hpoised, hbelow⟩ := h
    exact ⟨t', hleads, hpoised.pastElse, hbelow.mono (by simp) (by simp)⟩
  | failed =>
    obtain ⟨cur, ctx', hunwinds, hreaches⟩ := h
    cases hunwinds with
    | elsePart hunwinds => exact ⟨cur, ctx', hunwinds, hreaches⟩
  | broke =>
    obtain ⟨cur, ctx', hbreaks, hreaches⟩ := h
    cases hbreaks with
    | elsePart hbreaks => exact ⟨cur, ctx', hbreaks, hreaches⟩
  | ended | fault => exact h

theorem Fulfils.pastArm {more : Code .arms} {ctx : Context .arms}
    (h : w.Fulfils .done (.arm more ctx) t host out) : w.Fulfils more ctx t host out := by
  obtain ⟨g, ending⟩ := out
  cases ending with
  | done =>
    obtain ⟨t', hleads, hpoised, hbelow⟩ := h
    exact ⟨t', hleads, hpoised.pastArm, hbelow.mono (by simp) (by simp)⟩
  | failed =>
    -- a condition directly in an arm would not be structured
    obtain ⟨cur, ctx', hunwinds, -⟩ := h
    exact nomatch hunwinds
  | broke =>
    obtain ⟨cur, ctx', hbreaks, hreaches⟩ := h
    cases hbreaks with
    | arm hbreaks => exact ⟨cur, ctx', hbreaks, hreaches⟩
  | ended | fault => exact h

end Ends

section Constructs

variable {n : Nat} (w : Setting n) (σ : Type) [Host σ]

/-- **The dispatcher does with a piece of code what it means**, wherever it stands. -/
def Runs {k : Kind} (c : Code k) : Prop :=
  ∀ (ctx : Context k) (t : Thread) (g : Play σ), t.Poised w.T c ctx g.selected →
    w.Fulfils .done ctx t g.host (c.exec g)

variable {w σ} {s : PlainStep} {count : UInt16} {var : UInt8} {label : Option UInt16}
  {body other rest : Code .row} {arms more : Code .arms}

theorem runs_done {k : Kind} : w.Runs σ (.done : Code k) := by
  intro ctx t g h
  rw [exec]
  exact ⟨t, .refl, h, .of_eq rfl rfl⟩

theorem runs_step (hrest : w.Runs σ rest) : w.Runs σ (.step s rest) := by
  intro ctx t g h
  rw [exec]
  exact (fulfils_step h).andThen fun g t' h' => hrest ctx t' g h'

theorem runs_ifThen (hbody : w.Runs σ body) (hrest : w.Runs σ rest) :
    w.Runs σ (.ifThen body rest) := by
  intro ctx t g h
  refine (reaches_then h).fulfils fun t₁ h₁ => ?_
  have hout := hbody _ t₁ g h₁
  rw [exec]
  generalize body.exec g = out at hout ⊢
  obtain ⟨g', ending⟩ := out
  cases ending with
  | done =>
    have hend : w.Reaches ctx .done (.thenOnly rest ctx) t₁ g.host g' :=
      Reaches.mono hout (by simp) (by simp)
    refine hend.fulfils fun t₂ h₂ => ?_
    exact (reaches_endIf h₂).fulfils fun t₃ h₃ => hrest ctx t₃ g' h₃
  -- without an else, a condition that fails goes on behind the if
  | failed =>
    obtain ⟨cur, ctx', hunwinds, hreaches⟩ := hout
    cases hunwinds
    exact hreaches.fulfils fun t₂ h₂ => hrest ctx t₂ g' h₂
  | broke =>
    obtain ⟨cur, ctx', hbreaks, hreaches⟩ := hout
    cases hbreaks with
    | thenOnly hbreaks => exact ⟨cur, ctx', hbreaks, hreaches⟩
  | ended | fault => exact hout

theorem runs_ifElse (hbody : w.Runs σ body) (hother : w.Runs σ other) (hrest : w.Runs σ rest) :
    w.Runs σ (.ifElse body other rest) := by
  intro ctx t g h
  refine (reaches_thenElse h).fulfils fun t₁ h₁ => ?_
  have hout := hbody _ t₁ g h₁
  rw [exec]
  generalize body.exec g = out at hout ⊢
  obtain ⟨g', ending⟩ := out
  cases ending with
  | done =>
    have hend : w.Reaches ctx .done (.thenElse other rest ctx) t₁ g.host g' :=
      Reaches.mono hout (by simp) (by simp)
    refine hend.fulfils fun t₂ h₂ => ?_
    exact (reaches_elseStart h₂).fulfils fun t₃ h₃ => hrest ctx t₃ g' h₃
  | failed =>
    obtain ⟨cur, ctx', hunwinds, hreaches⟩ := hout
    cases hunwinds
    have helse : w.Reaches ctx other (.elsePart rest ctx) t₁ g.host g' :=
      hreaches.mono (by simp) (by simp)
    refine helse.fulfils fun t₂ h₂ => ?_
    exact (hother _ t₂ g' h₂).pastElse.andThen fun g'' t₃ h₃ => hrest ctx t₃ g'' h₃
  | broke =>
    obtain ⟨cur, ctx', hbreaks, hreaches⟩ := hout
    cases hbreaks with
    | thenElse hbreaks => exact ⟨cur, ctx', hbreaks, hreaches⟩
  | ended | fault => exact hout

/-- One round of a loop: its end is reached with the count of the loop as it was, and a break goes
on behind the loop. -/
theorem fulfils_round (hbody : w.Runs σ body) (hrest : w.Runs σ rest) {ctx : Context .row}
    {t : Thread} {g : Play σ} {left : Nat} {next : Play σ → Play σ × Ending}
    (h : t.Poised w.T body (.loop count body rest ctx) g.selected)
    (hcount : t.level.Counts ctx.loops left)
    (hnext : ∀ (g' : Play σ) t', t'.Poised w.T .done (.loop count body rest ctx) g'.selected →
      t'.level.Counts ctx.loops left →
        w.Fulfils .done ctx t' g'.host (leave (next g') rest.exec)) :
    w.Fulfils .done ctx t g.host (leave (andThen (body.exec g) next) rest.exec) := by
  have hout := hbody _ t g h
  generalize body.exec g = out at hout ⊢
  obtain ⟨g', ending⟩ := out
  cases ending with
  | done =>
    obtain ⟨t', hleads, h', hbelow⟩ := hout
    -- the frame of the loop is one of those that the body leaves alone
    have hcount' : t'.level.Counts ctx.loops left := by
      obtain ⟨f, hslot, hcounter⟩ := hcount
      exact ⟨f, by rw [hbelow.frames _ (by simp), hslot], hcounter⟩
    exact .after hleads (hbelow.mono (by simp) (by simp)) (hnext g' t' h' hcount')
  | failed =>
    -- a condition directly in a loop would not be structured
    obtain ⟨cur, ctx', hunwinds, -⟩ := hout
    exact nomatch hunwinds
  | broke =>
    obtain ⟨cur, ctx', hbreaks, hreaches⟩ := hout
    cases hbreaks
    exact hreaches.fulfils fun t' h' => hrest ctx t' g' h'
  | ended | fault => exact hout

/-- The rounds of a loop that are left, by induction on their number. -/
theorem fulfils_rounds (hbody : w.Runs σ body) (hrest : w.Runs σ rest) {ctx : Context .row}
    {m : Nat} {t : Thread} {g : Play σ}
    (h : t.Poised w.T body (.loop count body rest ctx) g.selected)
    (hcount : t.level.Counts ctx.loops (m + 1)) :
    w.Fulfils .done ctx t g.host (leave (rounds body.exec (m + 1) g) rest.exec) := by
  induction m generalizing t g with
  | zero =>
    refine fulfils_round hbody hrest h hcount fun g' t' h' hcount' => ?_
    exact (reaches_forEnd h' hcount').fulfils fun t'' h'' => hrest ctx t'' g' h''
  | succ m ih =>
    refine fulfils_round hbody hrest h hcount fun g' t' h' hcount' => ?_
    obtain ⟨t'', hleads, h'', hbelow, hcount''⟩ := startsRound_forEnd h' hcount'
    exact .after hleads hbelow (ih h'' hcount'')

theorem runs_loop (hbody : w.Runs σ body) (hrest : w.Runs σ rest) :
    w.Runs σ (.loop count body rest) := by
  intro ctx t g h
  rw [exec]
  by_cases hzero : count = 0
  · subst hzero
    exact (reaches_skipLoop h).fulfils fun t' h' => hrest ctx t' g h'
  · obtain ⟨t', hleads, h', hbelow, hcount⟩ := startsRound_loop h hzero
    obtain ⟨m, hm⟩ : ∃ m, count.toNat = m + 1 :=
      Nat.exists_eq_succ_of_ne_zero fun hcount => hzero (UInt16.toNat_inj.mp hcount)
    rw [hm] at hcount ⊢
    exact .after hleads hbelow (fulfils_rounds hbody hrest h' hcount)

/-- Arms of a switch from the body of one of them on. -/
theorem fulfils_arms (hbody : w.Runs σ body) (hmore : w.Runs σ more) {ctx : Context .arms}
    {t : Thread} {g : Play σ} (h : t.Poised w.T body (.arm more ctx) g.selected) :
    w.Fulfils .done ctx t g.host (andThen (body.exec g) more.exec) :=
  (hbody _ t g h).pastArm.andThen fun g' t' h' => hmore ctx t' g' h'

theorem runs_arm (hbody : w.Runs σ body) (hmore : w.Runs σ more) :
    w.Runs σ (.arm label body more) := by
  intro ctx t g h
  rw [exec]
  exact (reaches_arm h).fulfils fun t' h' => fulfils_arms hbody hmore h'

/-- A switch, given the runs of the arm that takes a value and of those behind it. -/
theorem runs_switch (hrest : w.Runs σ rest)
    (harms : ∀ value body more, arms.chosen value = some (body, more) →
      w.Runs σ body ∧ w.Runs σ more) : w.Runs σ (.switch var arms rest) := by
  intro ctx t g h
  rw [exec, select_eq]
  cases hchosen : arms.chosen (Host.var g.host var) with
  | none => exact (reaches_skipSwitch h hchosen).fulfils fun t' h' => hrest ctx t' g h'
  | some chosen =>
    obtain ⟨body, more⟩ := chosen
    obtain ⟨hbody, hmore⟩ := harms _ _ _ hchosen
    refine (reaches_chosen h hchosen).fulfils fun t₁ h₁ => ?_
    have hout := fulfils_arms hbody hmore h₁
    simp only
    generalize andThen (body.exec g) more.exec = out at hout ⊢
    obtain ⟨g', ending⟩ := out
    cases ending with
    | done =>
      have hend : w.Reaches ctx .done (.switch rest ctx) t₁ g.host g' :=
        Reaches.mono hout (by simp) (by simp)
      refine hend.fulfils fun t₂ h₂ => ?_
      exact (reaches_endSwitch h₂).fulfils fun t₃ h₃ => hrest ctx t₃ g' h₃
    | failed =>
      obtain ⟨cur, ctx', hunwinds, -⟩ := hout
      cases hunwinds
    -- a break in an arm is what a switch ends with
    | broke =>
      obtain ⟨cur, ctx', hbreaks, hreaches⟩ := hout
      cases hbreaks
      exact hreaches.fulfils fun t₂ h₂ => hrest ctx t₂ g' h₂
    | ended | fault => exact hout

end Constructs

/-- **The dispatcher does with every piece of code what it means.** -/
theorem runs {n : Nat} (w : Setting n) (σ : Type) [Host σ] {k : Kind} (c : Code k) :
    w.Runs σ c := by
  -- a switch jumps into its arms, so the arms come with the runs of all that can be chosen
  have hboth : w.Runs σ c ∧ ∀ value body more, c.chosen value = some (body, more) →
      w.Runs σ body ∧ w.Runs σ more := by
    induction c with
    | done => exact ⟨runs_done, nofun⟩
    | step s rest ih => exact ⟨runs_step ih.1, nofun⟩
    | ifThen body rest ihbody ih => exact ⟨runs_ifThen ihbody.1 ih.1, nofun⟩
    | ifElse body other rest ihbody ihother ih =>
      exact ⟨runs_ifElse ihbody.1 ihother.1 ih.1, nofun⟩
    | loop count body rest ihbody ih => exact ⟨runs_loop ihbody.1 ih.1, nofun⟩
    | switch var arms rest iharms ih => exact ⟨runs_switch ih.1 iharms.2, nofun⟩
    | arm label body more ihbody ihmore =>
      refine ⟨runs_arm ihbody.1 ihmore.1, fun value body' more' hchosen => ?_⟩
      cases label with
      | none =>
        cases hchosen
        exact ⟨ihbody.1, ihmore.1⟩
      | some v =>
        rw [chosen] at hchosen
        split at hchosen
        · cases hchosen
          exact ⟨ihbody.1, ihmore.1⟩
        · exact ihmore.2 value body' more' hchosen
  exact hboth.1

end Setting

/-! ### Whole scripts -/

/-- How a pass comes out for a thread that has come to an end. -/
def Ending.result : Ending → Except Fault Unit
  | .fault f => .error f
  | _ => .ok ()

/-- **A thread at the start of a script that has an end stops as the script means.** -/
theorem Setting.stops {n : Nat} (w : Setting n) {σ : Type} [Host σ]
    (hend : w.T.steps.getLast? = some .evtEnd) {t : Thread} {g : Play σ}
    (h : t.Poised w.T w.T .top g.selected) :
    ((w.T.exec g).2 = .ended ∨ ∃ f, (w.T.exec g).2 = .fault f) ∧
      Machine.Stops w.rules w.script w.pool w.i t g.host (w.T.exec g).1.host
        (w.T.exec g).2.result := by
  have hout := w.runs σ w.T .top t g h
  have hne := exec_ne_done hend g
  generalize w.T.exec g = out at hout hne ⊢
  obtain ⟨g', ending⟩ := out
  cases ending with
  | done => exact absurd rfl hne
  -- outside of all blocks there is nothing to leave
  | failed =>
    obtain ⟨cur, ctx', hunwinds, -⟩ := hout
    exact nomatch hunwinds
  | broke =>
    obtain ⟨cur, ctx', hbreaks, -⟩ := hout
    exact nomatch hbreaks
  | ended => exact ⟨.inl rfl, hout⟩
  | fault f => exact ⟨.inr ⟨f, rfl⟩, hout⟩

/-- A thread that is started on a script stands at its start, with nothing selected. -/
theorem Thread.Poised.activate {T : Code .row} (id : Nat) :
    ((Thread.idle id).activate 0).Poised T T .top {} where
  place := ⟨[], .start⟩
  keeps := ⟨rfl, rfl, .top rfl rfl⟩
  selected := rfl

section Entries

variable {entries : Nat} {body : List Step}

/-- No entry point is declared among structured steps, and all of them have a name. -/
theorem Step.named_of_structured (hplaced : ({} : Builder).along structured body = true) :
    ∀ s ∈ body, s.isNamed = true ∧ s ≠ .entry := by
  intro s hs
  obtain ⟨around, hplace⟩ := Builder.exists_of_along hplaced hs
  cases s with
  | instruction | raw | entry => exact nomatch hplace
  | _ => exact ⟨rfl, nofun⟩

/-- Entry points declared before all other steps are not written. -/
theorem Builder.written_replicate (hbody : ∀ s ∈ body, s ≠ .entry) :
    written (List.replicate entries .entry ++ body) = body := by
  rw [written, List.filter_append, List.filter_eq_nil_iff.mpr, List.filter_eq_self.mpr]
  · rfl
  · exact fun s hs => by simpa using hbody s hs
  · exact fun s hs => by simp [List.eq_of_mem_replicate hs]

theorem Builder.entryPoints_ne_nil (b : Builder) : b.entryPoints ≠ [] := by
  unfold entryPoints
  split
  · exact nofun
  · next hne => simpa using hne

/-- **A script whose entry points come before all other steps starts at its first byte.** -/
theorem Assembled.entry_zero {script : Script} {T : Code .row} (hbody : ∀ s ∈ body, s ≠ .entry)
    (hA : Assembled (List.replicate entries .entry ++ body) script T)
    (hentries : script.entries ≠ []) : script.entry 0 = .ok 0 := by
  obtain ⟨e, es, hes⟩ := List.exists_cons_of_ne_nil hentries
  obtain ⟨pre, post, hsteps, hsize, hdeclared⟩ := hA.entry e (by rw [hes]; exact List.mem_cons_self)
  -- an entry point is declared among the first steps, which write nothing
  have hempty : Builder.written pre = [] := by
    rcases hdeclared with rfl | hhead
    · rfl
    · obtain ⟨post', rfl⟩ := List.head?_eq_some_iff.mp hhead
      refine List.filter_eq_nil_iff.mpr fun s hs => ?_
      obtain ⟨late, hpre, hbody'⟩ | ⟨early, hfirst, -⟩ := List.append_eq_append_iff.mp hsteps
      · exact absurd rfl (hbody .entry (by rw [hbody']; simp))
      · have hmem : s ∈ List.replicate entries Step.entry := by
          rw [hfirst]
          exact List.mem_append_left _ hs
        simp [List.eq_of_mem_replicate hmem]
  have hzero : e = 0 := by
    rw [← hsize, ← Builder.code_written, hempty]
    rfl
  rw [Script.entry, hes, hzero]
  rfl

end Entries

/-- An idle machine starts a thread on a script that starts at its first byte. -/
theorem Machine.start_idle {n : Nat} {σ : Type} {script : Script} (hentry : script.entry 0 = .ok 0)
    (rules : Rules) (host : σ) (i : Fin n) :
    ((Machine.idle n host).start rules script i 0).2 = .ok () ∧
      ((Machine.idle n host).start rules script i 0).1.Shows (.idle n) i
        ((Thread.idle i).activate 0) host := by
  simp only [start, hentry, dif_pos i.isLt]
  refine ⟨trivial, ?_, rfl⟩
  rw [pool_say, pool_modify, Pool.modify]
  change (Pool.idle n).replace i (((Pool.idle n).thread i).activate 0) = _
  rw [Pool.thread_idle]

/-- **Structured scripts execute as written.** Take any structured steps with an end, entry points
being declared before all of them, and let a new engine start its first thread on the script they
are assembled to. However the game stands, one pass then comes to its end with just those writes
made, in their order, that the meaning of the nested steps makes, and no thread is running any
more. If the meaning is to come to a statement that cannot be carried out, the pass stops there for
the same cause. -/
theorem Engine.structured_executes_as_written {σ : Type} [Host σ] {entries : Nat}
    {body : List Step} {script : Script}
    (hplaced : ({} : Builder).along Step.structured body = true)
    (harms : Step.armsFirst body = true) (hend : body.getLast? = some .evtEnd)
    (hbuild : (Builder.run (List.replicate entries .entry ++ body)).build = .ok script)
    (traces : TraceSet) (host : σ) :
    (∃ T : Code .row, T.steps = body) ∧ ∀ T : Code .row, T.steps = body →
      let e := Engine.ofConfig {} traces ({ host := host } : Journal σ)
      let started := e.machine.start e.rules script 0 0
      let meaning := T.exec ({ host := { host := host } } : Play (Journal σ))
      started.2 = .ok () ∧ (meaning.2 = .ended ∨ ∃ f, meaning.2 = .fault f) ∧
        ∃ enough, ∀ fuel ≥ enough,
          let after := started.1.pass e.rules script fuel
          after.2 = meaning.2.result.mapError .fault ∧ after.1.host = meaning.1.host ∧
            ∀ i, (after.1.pool.thread i).running = false := by
  have hnamed := Step.named_of_structured hplaced
  have hwritten : Builder.written (List.replicate entries .entry ++ body) = body :=
    Builder.written_replicate fun s hs => (hnamed s hs).2
  obtain ⟨⟨herr, hopen⟩, -, hentries⟩ := Builder.build_eq_ok hbuild
  have hrun := Builder.run_written (List.replicate entries .entry ++ body)
  rw [hwritten] at hrun
  refine ⟨Code.exists_of_run hnamed harms (by rw [hrun]; exact herr) (by rw [hrun]; exact hopen),
    fun T hT => ?_⟩
  intro e started meaning
  have hA := Assembled.of_steps (hT.trans hwritten.symm) hbuild
  have hne : script.entries ≠ [] := by
    rw [hentries]
    exact Builder.entryPoints_ne_nil _
  have hentry := hA.entry_zero (fun s hs => (hnamed s hs).2) hne
  -- the first thread of an idle pool, under rules that set no budget
  let w : Setting Config.defaultThreadCount :=
    { rules := e.rules, script := script, pool := .idle _, i := ⟨0, by decide⟩, steps := _, T := T
      handlers := rfl, budget := rfl, assembled := hA, placed := by rw [hT]; exact hplaced }
  have hidle : ∀ j, ((Pool.idle Config.defaultThreadCount).thread j).running = false :=
    fun j => by rw [Pool.thread_idle]; rfl
  obtain ⟨hstarted, hshows⟩ := Machine.start_idle hentry e.rules ({ host := host } : Journal σ) w.i
  let g : Play (Journal σ) := { host := { host := host } }
  obtain ⟨hending, hstops⟩ := w.stops (g := g) (by rw [hT]; exact hend) (.activate 0)
  refine ⟨hstarted, hending, ?_⟩
  obtain ⟨enough, hpass⟩ := Machine.pass_of_stops w.budget hshows rfl (fun j _ => hidle j) hstops
  refine ⟨enough, fun fuel hfuel => ?_⟩
  obtain ⟨m', t', hout, hm', hhalted⟩ := hpass fuel hfuel
  intro after
  have hafter : after = (m', meaning.2.result.mapError .fault) := hout
  rw [hafter]
  refine ⟨rfl, hm'.host_eq, fun j => ?_⟩
  -- the thread has come to its end, and the others were never started
  by_cases hj : j = w.i
  · rw [hj, hm'.thread]
    exact hhalted
  · rw [hm'.pool_eq, Pool.thread_replace_of_ne _ _ hj]
    exact hidle j

/-- Counts a variable up by five in a loop that is left at ten, and looks the count up in a switch.
-/
def Script.counting : Script where
  data := #[
    -- the loop and its count
    0x0d, 0, 28, 0, 3, 0, 0x26, 0, 0, 0, 5, 0,
    -- the if with its comparison and its else
    0x06, 0, 12, 0, 0x23, 0, 0, 0, 10, 0, 0x1a, 0, 0x07, 0, 8, 0, 0x24, 1, 7, 0, 0x0e, 0,
    -- the switch with its three arms
    0x13, 0, 30, 0, 0x14, 0, 4, 0, 10, 0, 0x24, 2, 1, 0, 0x14, 0, 6, 0, 11, 0, 0x24, 2, 2, 0,
    0x1a, 0, 0x15, 0, 0x24, 2, 3, 0, 0x16, 0, 0x01, 0]
  entries := [0]
  entries_lt := by decide

/-- The first round takes the else and the second one breaks; the switch starts in its first arm,
falls through to the second one and breaks there. -/
theorem Engine.structured_executes_as_written_counting :
    let body : List Step :=
      [.forLoop 3, .calculate 0 0 5, .ifStart, .compare 0 0 10, .breakLoop, .elseStart, .save 1 7,
        .endIf, .forEnd, .switch 0, .caseArm 10, .save 2 1, .caseArm 11, .save 2 2, .breakLoop,
        .defaultCase, .save 2 3, .endSwitch, .evtEnd]
    let e := Engine.ofConfig {} {} ({ host := {} } : Journal Stage)
    let started := e.machine.start e.rules .counting 0 0
    (Builder.run (List.replicate 1 .entry ++ body)).build = .ok .counting ∧
      ∃ enough, ∀ fuel ≥ enough,
        let after := started.1.pass e.rules .counting fuel
        after.2 = .ok () ∧ after.1.host.writes = #[.setVariable 0 5, .setVariable 1 7,
          .setVariable 0 10, .setVariable 2 1, .setVariable 2 2] := by
  intro body e started
  have hbuild : (Builder.run (List.replicate 1 .entry ++ body)).build = .ok .counting := by
    decide +kernel
  let loopBody : Code .row := .step ⟨.calculate 0 0 5, rfl⟩ (.ifElse
    (.step ⟨.compare 0 0 10, rfl⟩ (.step ⟨.breakLoop, rfl⟩ .done))
    (.step ⟨.save 1 7, rfl⟩ .done) .done)
  let arms : Code .arms := .arm (some 10) (.step ⟨.save 2 1, rfl⟩ .done)
    (.arm (some 11) (.step ⟨.save 2 2, rfl⟩ (.step ⟨.breakLoop, rfl⟩ .done))
      (.arm none (.step ⟨.save 2 3, rfl⟩ .done) .done))
  let T : Code .row := .loop 3 loopBody (.switch 0 arms (.step ⟨.evtEnd, rfl⟩ .done))
  obtain ⟨-, -, enough, hpass⟩ := (structured_executes_as_written (by decide) (by decide)
    (by decide) hbuild {} ({} : Stage)).2 T rfl
  refine ⟨hbuild, enough, fun fuel hfuel => ?_⟩
  obtain ⟨hresult, hhost, -⟩ := hpass fuel hfuel
  have hending : (T.exec ({ host := { host := {} } } : Play (Journal Stage))).2 = .ended := by
    decide +kernel
  have hwrites : (T.exec ({ host := { host := {} } } : Play (Journal Stage))).1.host.writes =
      #[.setVariable 0 5, .setVariable 1 7, .setVariable 0 10, .setVariable 2 1,
        .setVariable 2 2] := by decide +kernel
  intro after
  rw [hending] at hresult
  exact ⟨hresult, by rw [← hwrites, ← hhost]⟩

end RoomScript
