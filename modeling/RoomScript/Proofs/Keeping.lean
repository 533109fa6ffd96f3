import RoomScript.Proofs.Effect
import RoomScript.Proofs.Place

/-!
# What a thread keeps of the blocks it stands in

A thread that stands somewhere in nested code has opened the blocks around it: a slot of its block
stack for every then-part, a loop frame for every loop and every switch. The slots say where the
blocks are left to, so they are places of the tree. An else and an arm keep nothing, since the if is
closed before its else, and an arm belongs to the frame of its switch.

`Context.Kept` says that the slots of a level hold what the blocks around a place have put there,
and `Level.Keeps` that the counters stand at the depth of the place. Each operation on the two
stacks is then a step into a block or out of one.

**Main statements.** `Context.Kept.congr`: only the slots below the depth matter.
`Context.Kept.unwinds` and `Context.Kept.breaks`: where the innermost if is resumed, and where the
innermost loop or switch is left to.
-/

namespace RoomScript

open Code Layout Payload

/-! ### Depths -/

/-- The blocks that have a loop frame. -/
def Shape.isLoop : Shape → Bool
  | .loop | .switch => true
  | _ => false

namespace Context

variable {k : Kind}

/-- The number of then-parts around a place. -/
def ifs (ctx : Context k) : Nat := ctx.shapes.count .thenPart

/-- The number of loops and switches around a place. -/
def loops (ctx : Context k) : Nat := ctx.shapes.countP Shape.isLoop

section Depths

variable (rest other body : Code .row) (more : Code .arms) (count : UInt16)
  (outer : Context .row) (switch : Context .arms)

@[simp] theorem ifs_top : top.ifs = 0 := rfl
@[simp] theorem loops_top : top.loops = 0 := rfl
@[simp] theorem ifs_thenOnly : (thenOnly rest outer).ifs = outer.ifs + 1 := by simp [ifs, shapes]
@[simp] theorem loops_thenOnly : (thenOnly rest outer).loops = outer.loops := by
  simp [loops, shapes, Shape.isLoop]
@[simp] theorem ifs_thenElse : (thenElse other rest outer).ifs = outer.ifs + 1 := by
  simp [ifs, shapes]
@[simp] theorem loops_thenElse : (thenElse other rest outer).loops = outer.loops := by
  simp [loops, shapes, Shape.isLoop]
@[simp] theorem ifs_elsePart : (elsePart rest outer).ifs = outer.ifs := by simp [ifs, shapes]
@[simp] theorem loops_elsePart : (elsePart rest outer).loops = outer.loops := by
  simp [loops, shapes, Shape.isLoop]
@[simp] theorem ifs_loop : (loop count body rest outer).ifs = outer.ifs := by simp [ifs, shapes]
@[simp] theorem loops_loop : (loop count body rest outer).loops = outer.loops + 1 := by
  simp [loops, shapes, List.countP_cons, Shape.isLoop]
@[simp] theorem ifs_switch : (Context.switch rest outer).ifs = outer.ifs := by simp [ifs, shapes]
@[simp] theorem loops_switch : (Context.switch rest outer).loops = outer.loops + 1 := by
  simp [loops, shapes, List.countP_cons, Shape.isLoop]
@[simp] theorem ifs_arm : (arm more switch).ifs = switch.ifs := by simp [ifs, shapes]
@[simp] theorem loops_arm : (arm more switch).loops = switch.loops := by
  simp [loops, shapes, Shape.isLoop]

end Depths

/-- Coming to the end of an else or an arm changes no depth. -/
theorem Sheds.depth_eq {k' : Kind} {ctx : Context k} {ctx' : Context k'} (h : ctx.Sheds ctx') :
    ctx'.ifs = ctx.ifs ∧ ctx'.loops = ctx.loops := by
  induction h with
  | refl => exact ⟨rfl, rfl⟩
  | elsePart h ih => simpa using ih
  | arm h ih => simpa using ih

/-! ### Ways out of a block -/

/-- **Where a failed condition goes on**: behind the innermost then-part, or in the else of it. A
loop or a switch is not seen through. -/
inductive Unwinds : {k : Kind} → Context k → Code .row → Context .row → Prop
  | thenOnly {rest outer} : Unwinds (.thenOnly rest outer) rest outer
  | thenElse {other rest outer} :
    Unwinds (.thenElse other rest outer) other (.elsePart rest outer)
  | elsePart {rest outer cur ctx} (h : Unwinds outer cur ctx) :
    Unwinds (.elsePart rest outer) cur ctx

/-- **Where a break goes on**: behind the innermost loop or switch. -/
inductive Breaks : {k : Kind} → Context k → Code .row → Context .row → Prop
  | loop {count body rest outer} : Breaks (.loop count body rest outer) rest outer
  | switch {rest outer} : Breaks (.switch rest outer) rest outer
  | thenOnly {rest outer cur ctx} (h : Breaks outer cur ctx) :
    Breaks (.thenOnly rest outer) cur ctx
  | thenElse {other rest outer cur ctx} (h : Breaks outer cur ctx) :
    Breaks (.thenElse other rest outer) cur ctx
  | elsePart {rest outer cur ctx} (h : Breaks outer cur ctx) :
    Breaks (.elsePart rest outer) cur ctx
  | arm {more outer cur ctx} (h : Breaks outer cur ctx) : Breaks (.arm more outer) cur ctx

theorem Unwinds.depth_eq {ctx : Context k} {cur : Code .row} {ctx' : Context .row}
    (h : ctx.Unwinds cur ctx') :
    ctx.ifs = ctx'.ifs + 1 ∧ ctx.loops = ctx'.loops := by
  induction h with
  | thenOnly | thenElse => simp
  | elsePart h ih => simpa using ih

theorem Breaks.depth_eq {ctx : Context k} {cur : Code .row} {ctx' : Context .row}
    (h : ctx.Breaks cur ctx') : ctx'.ifs ≤ ctx.ifs ∧ ctx.loops = ctx'.loops + 1 := by
  induction h with
  | loop | switch => simp
  | thenOnly h ih | thenElse h ih =>
    simp only [ifs_thenOnly, loops_thenOnly, ifs_thenElse, loops_thenElse]
    omega
  | elsePart h ih | arm h ih => simpa using ih

/-- Inside a loop or a switch there is one to be left. -/
theorem exists_breaks {ctx : Context k} (h : 0 < ctx.loops) :
    ∃ cur ctx', ctx.Breaks cur ctx' := by
  -- outwards up to the innermost loop or switch
  induction ctx with
  | top => simp at h
  | loop _ _ rest outer => exact ⟨_, _, .loop⟩
  | switch rest outer => exact ⟨_, _, .switch⟩
  | thenOnly rest outer ih =>
    obtain ⟨cur, ctx', h'⟩ := ih (by simpa using h)
    exact ⟨cur, ctx', .thenOnly h'⟩
  | thenElse other rest outer ih =>
    obtain ⟨cur, ctx', h'⟩ := ih (by simpa using h)
    exact ⟨cur, ctx', .thenElse h'⟩
  | elsePart rest outer ih =>
    obtain ⟨cur, ctx', h'⟩ := ih (by simpa using h)
    exact ⟨cur, ctx', .elsePart h'⟩
  | arm more outer ih =>
    obtain ⟨cur, ctx', h'⟩ := ih (by simpa using h)
    exact ⟨cur, ctx', .arm h'⟩

/-! ### What the blocks have put into the slots -/

/-- The slots of a level hold what the blocks around a place have put there: a then-part where it is
resumed, a loop and a switch where they are left to and the depth they were opened at, and a loop
where its body starts. -/
def Kept (T : Code .row) (l : Level) : {k : Kind} → Context k → Prop
  | _, .top => True
  | _, .thenOnly rest outer =>
    (∃ pre a, l.stack[outer.ifs]? = some a ∧ Place T pre a rest outer) ∧ outer.Kept T l
  | _, .thenElse other rest outer =>
    (∃ pre a, l.stack[outer.ifs]? = some a ∧ Place T pre a other (.elsePart rest outer)) ∧
      outer.Kept T l
  | _, .elsePart _ outer => outer.Kept T l
  | _, .loop count body rest outer =>
    (∃ pre pre' f, l.frames[outer.loops]? = some f ∧ f.ifCounter + 1 = outer.ifs ∧
      Place T pre f.breakTo rest outer ∧
      Place T pre' f.body body (.loop count body rest outer)) ∧ outer.Kept T l
  | _, .switch rest outer =>
    (∃ pre f, l.frames[outer.loops]? = some f ∧ f.ifCounter + 1 = outer.ifs ∧
      Place T pre f.breakTo rest outer) ∧ outer.Kept T l
  | _, .arm _ outer => outer.Kept T l

end Context

/-! ### Slots that do not matter -/

namespace Level

/-- Two levels that agree in the slots below some depths. -/
structure Below (ifs loops : Nat) (l l' : Level) : Prop where
  stack : ∀ i < ifs, l'.stack[i]? = l.stack[i]?
  frames : ∀ i < loops, l'.frames[i]? = l.frames[i]?

/-- Two levels that agree in the slots below some depths, but for the counters of their frames. -/
structure Agrees (ifs loops : Nat) (l l' : Level) : Prop where
  stack : ∀ i < ifs, l'.stack[i]? = l.stack[i]?
  frames : ∀ i < loops, ∀ f, l.frames[i]? = some f →
    ∃ counter, l'.frames[i]? = some { f with counter := counter }

variable {ifs loops ifs' loops' : Nat} {l l' l'' : Level}

namespace Below

theorem agrees (h : Below ifs loops l l') : Agrees ifs loops l l' where
  stack := h.stack
  frames := fun i hi f hf => ⟨f.counter, by rw [h.frames i hi, hf]⟩

theorem trans (h : Below ifs loops l l') (h' : Below ifs loops l' l'') :
    Below ifs loops l l'' where
  stack := fun i hi => (h'.stack i hi).trans (h.stack i hi)
  frames := fun i hi => (h'.frames i hi).trans (h.frames i hi)

theorem mono (h : Below ifs loops l l') (hifs : ifs' ≤ ifs) (hloops : loops' ≤ loops) :
    Below ifs' loops' l l' where
  stack := fun i hi => h.stack i (by omega)
  frames := fun i hi => h.frames i (by omega)

/-- Levels with the same slots. -/
theorem of_eq (hstack : l'.stack = l.stack) (hframes : l'.frames = l.frames) :
    Below ifs loops l l' where
  stack := fun i _ => by rw [hstack]
  frames := fun i _ => by rw [hframes]

/-- A slot of the block stack at or above the depth may be overwritten. -/
theorem setStack {i : Nat} (hle : ifs ≤ i) (resume : Nat) (ifCounter : Int) :
    Below ifs loops l
      { l with stack := l.stack.setIfInBounds i resume, ifCounter := ifCounter } where
  stack := fun j hj => by rw [Vector.getElem?_setIfInBounds_ne (by omega)]
  frames := fun j _ => rfl

/-- A frame at or above the depth may be overwritten. -/
theorem setFrame {i : Nat} (hle : loops ≤ i) (frame : Frame) (loopLevel : Int) :
    Below ifs loops l
      { l with frames := l.frames.setIfInBounds i frame, loopLevel := loopLevel } where
  stack := fun j _ => rfl
  frames := fun j hj => by rw [Vector.getElem?_setIfInBounds_ne (by omega)]

end Below

namespace Agrees

theorem mono (h : Agrees ifs loops l l') (hifs : ifs' ≤ ifs) (hloops : loops' ≤ loops) :
    Agrees ifs' loops' l l' where
  stack := fun i hi => h.stack i (by omega)
  frames := fun i hi => h.frames i (by omega)

/-- The counter of any frame may be changed. -/
theorem setCounter (k : Fin loopDepth) (counter : Int) :
    Agrees ifs loops l
      { l with frames := l.frames.set k { l.frames.get k with counter := counter } k.isLt } where
  stack := fun j _ => rfl
  frames := fun j _ f hf => by
    by_cases hj : k.val = j
    · subst hj
      obtain ⟨_, rfl⟩ := Vector.getElem?_eq_some_iff.mp hf
      exact ⟨counter, by simp [get_eq_getElem]⟩
    · exact ⟨f.counter, by rw [Vector.getElem?_set_ne k.isLt hj, hf]⟩

end Agrees

end Level

namespace Context.Kept

variable {T : Code .row} {k : Kind} {l l' : Level} {ctx : Context k}

/-- **Only the slots below the depth of a place matter.** -/
theorem congr (h : ctx.Kept T l) (hl : Level.Agrees ctx.ifs ctx.loops l l') : ctx.Kept T l' := by
  -- outwards: every block needs the slot at its own depth, and those around it need less
  induction ctx with
  | top => trivial
  | thenOnly rest outer ih =>
    obtain ⟨⟨pre, a, hslot, hplace⟩, houter⟩ := h
    refine ⟨⟨pre, a, ?_, hplace⟩, ih houter (hl.mono (by simp) (by simp))⟩
    rw [hl.stack _ (by simp), hslot]
  | thenElse other rest outer ih =>
    obtain ⟨⟨pre, a, hslot, hplace⟩, houter⟩ := h
    refine ⟨⟨pre, a, ?_, hplace⟩, ih houter (hl.mono (by simp) (by simp))⟩
    rw [hl.stack _ (by simp), hslot]
  | loop count body rest outer ih =>
    obtain ⟨⟨pre, pre', f, hslot, hif, hbreak, hbody⟩, houter⟩ := h
    obtain ⟨counter, hslot'⟩ := hl.frames _ (by simp) f hslot
    exact ⟨⟨pre, pre', _, hslot', hif, hbreak, hbody⟩, ih houter (hl.mono (by simp) (by simp))⟩
  | switch rest outer ih =>
    obtain ⟨⟨pre, f, hslot, hif, hbreak⟩, houter⟩ := h
    obtain ⟨counter, hslot'⟩ := hl.frames _ (by simp) f hslot
    exact ⟨⟨pre, _, hslot', hif, hbreak⟩, ih houter (hl.mono (by simp) (by simp))⟩
  | elsePart rest outer ih => exact ih h (hl.mono (by simp) (by simp))
  | arm more outer ih => exact ih h (hl.mono (by simp) (by simp))

theorem sheds {k' : Kind} {ctx' : Context k'} (h : ctx.Kept T l) (hsheds : ctx.Sheds ctx') :
    ctx'.Kept T l := by
  induction hsheds with
  | refl => exact h
  | elsePart _ ih => exact ih h
  | arm _ ih => exact ih h

/-- **A failed condition goes on at a place**: the innermost slot in use says where. -/
theorem unwinds {cur : Code .row} {ctx' : Context .row} (h : ctx.Kept T l)
    (hu : ctx.Unwinds cur ctx') :
    (∃ pre a, l.stack[ctx'.ifs]? = some a ∧ Place T pre a cur ctx') ∧ ctx'.Kept T l := by
  induction hu with
  | thenOnly => exact h
  | thenElse => exact h
  | elsePart _ ih => exact ih h

/-- **A break goes on at a place**: the innermost frame in use says where, and what depth to go back
to. -/
theorem breaks {cur : Code .row} {ctx' : Context .row} (h : ctx.Kept T l)
    (hb : ctx.Breaks cur ctx') :
    (∃ pre f, l.frames[ctx'.loops]? = some f ∧ f.ifCounter + 1 = ctx'.ifs ∧
      Place T pre f.breakTo cur ctx') ∧ ctx'.Kept T l := by
  induction hb with
  | loop =>
    obtain ⟨⟨pre, pre', f, hslot, hif, hbreak, -⟩, houter⟩ := h
    exact ⟨⟨pre, f, hslot, hif, hbreak⟩, houter⟩
  | switch => exact h
  | thenOnly _ ih | thenElse _ ih => exact ih h.2
  | elsePart _ ih | arm _ ih => exact ih h

end Context.Kept

/-! ### Threads at a depth -/

/-- **A level keeps the blocks around a place**: its counters stand at the depth of the place, with
a number of loop frames open, and its slots hold what the blocks have put there. -/
structure Level.Keeps (T : Code .row) {k : Kind} (ctx : Context k) (frames : Nat) (l : Level) :
    Prop where
  ifCounter : l.ifCounter + 1 = ctx.ifs
  loopLevel : l.loopLevel + 1 = frames
  kept : ctx.Kept T l

/-- **A thread keeps the blocks around a place**, on its outermost level. -/
structure Thread.Keeps (T : Code .row) {k : Kind} (ctx : Context k) (frames : Nat) (t : Thread) :
    Prop where
  sub : t.sub = 0
  stackIndex : t.stackIndex = ctx.ifs
  level : t.level.Keeps T ctx frames

namespace Level.Keeps

variable {T : Code .row} {k : Kind} {l l' : Level} {ctx : Context k} {frames : Nat}

/-- With nothing open nothing is kept. -/
theorem top (hif : l.ifCounter = -1) (hloop : l.loopLevel = -1) : l.Keeps T .top 0 :=
  ⟨by simp [hif], by simp [hloop], trivial⟩

theorem sheds {k' : Kind} {ctx' : Context k'} (h : l.Keeps T ctx frames) (hs : ctx.Sheds ctx') :
    l.Keeps T ctx' frames :=
  ⟨by rw [hs.depth_eq.1]; exact h.ifCounter, h.loopLevel, h.kept.sheds hs⟩

/-- Slots that do not matter may change. -/
theorem congr (h : l.Keeps T ctx frames) (hif : l'.ifCounter = l.ifCounter)
    (hloop : l'.loopLevel = l.loopLevel) (hl : Agrees ctx.ifs ctx.loops l l') :
    l'.Keeps T ctx frames :=
  ⟨by rw [hif]; exact h.ifCounter, by rw [hloop]; exact h.loopLevel, h.kept.congr hl⟩

end Level.Keeps

/-! ### The operations where they succeed -/

namespace Thread

/-- Opens an if block, there being room for it. -/
def openIf (t : Thread) (resume : Nat) : Thread :=
  { t.setLevel { t.level with
      stack := t.level.stack.setIfInBounds t.stackIndex resume
      ifCounter := t.level.ifCounter + 1 } with
    stackIndex := t.stackIndex + 1 }

/-- Closes an if block, there being one open. -/
def closeIf (t : Thread) : Thread :=
  { t.setLevel { t.level with ifCounter := t.level.ifCounter - 1 } with
    stackIndex := t.stackIndex - 1 }

/-- Opens a loop frame, there being room for it. -/
def openLoop (t : Thread) (frame : Frame) : Thread :=
  t.setLevel { t.level with
    frames := t.level.frames.setIfInBounds (t.level.loopLevel + 1).toNat frame
    loopLevel := t.level.loopLevel + 1 }

section Levels

variable (t : Thread)

@[simp] theorem level_openIf (resume : Nat) : (t.openIf resume).level =
    { t.level with
      stack := t.level.stack.setIfInBounds t.stackIndex resume
      ifCounter := t.level.ifCounter + 1 } := level_setLevel t _

@[simp] theorem level_closeIf :
    t.closeIf.level = { t.level with ifCounter := t.level.ifCounter - 1 } := level_setLevel t _

@[simp] theorem level_openLoop (frame : Frame) : (t.openLoop frame).level =
    { t.level with
      frames := t.level.frames.setIfInBounds (t.level.loopLevel + 1).toNat frame
      loopLevel := t.level.loopLevel + 1 } := level_setLevel t _

@[simp] theorem level_countDown (k : Fin loopDepth) : (t.countDown k).level =
    { t.level with
      frames := t.level.frames.set k
        { t.level.frames.get k with counter := (t.level.frames.get k).counter - 1 } k.isLt } :=
  level_setLevel t _

@[simp] theorem level_dropLoop :
    t.dropLoop.level = { t.level with loopLevel := t.level.loopLevel - 1 } := level_setLevel t _

@[simp] theorem level_breakOut (frame : Frame) : (t.breakOut frame).level =
    { t.level with loopLevel := t.level.loopLevel - 1, ifCounter := frame.ifCounter } :=
  level_setLevel t _

/-! Closing leaves the slots as they are. -/

theorem below_closeIf (ifs loops : Nat) : Level.Below ifs loops t.level t.closeIf.level :=
  .of_eq (by rw [level_closeIf]) (by rw [level_closeIf])

theorem below_dropLoop (ifs loops : Nat) : Level.Below ifs loops t.level t.dropLoop.level :=
  .of_eq (by rw [level_dropLoop]) (by rw [level_dropLoop])

theorem below_breakOut (frame : Frame) (ifs loops : Nat) :
    Level.Below ifs loops t.level (t.breakOut frame).level :=
  .of_eq (by rw [level_breakOut]) (by rw [level_breakOut])

/-! Counting a frame down changes its counter. -/

theorem slot_countDown (k : Fin loopDepth) : (t.countDown k).level.frames[k.val]? =
    some { t.level.frames.get k with counter := (t.level.frames.get k).counter - 1 } := by
  rw [level_countDown]
  exact Vector.getElem?_set_self k.isLt

theorem below_countDown (k : Fin loopDepth) (ifs : Nat) :
    Level.Below ifs k t.level (t.countDown k).level where
  stack := fun i _ => by rw [level_countDown]
  frames := fun i hi => by rw [level_countDown, Vector.getElem?_set_ne k.isLt (by omega)]

end Levels

private theorem setIfInBounds_eq {α : Type} {n i : Nat} (v : Vector α n) (x : α) (h : i < n) :
    v.setIfInBounds i x = v.set i x := by
  refine Vector.ext fun j hj => ?_
  rw [Vector.getElem_setIfInBounds, Vector.getElem_set]

theorem pushBlock_eq {t : Thread} (h : t.stackIndex < blockDepth) (resume : Nat) :
    t.pushBlock resume = .ok (t.openIf resume) := by
  simp only [pushBlock, openIf, dif_pos h, setIfInBounds_eq _ _ h]

theorem popBlock_eq {t : Thread} {i resume : Nat} (h : t.stackIndex = i + 1)
    (hslot : t.level.stack[i]? = some resume) : t.popBlock = (t.closeIf, .ok resume) := by
  rw [popBlock, if_neg (by omega)]
  simp only [h, Nat.add_sub_cancel, hslot, closeIf]

theorem pushLoop_eq {t : Thread} {i : Nat} (h : t.level.loopLevel + 1 = i) (hi : i < loopDepth)
    (frame : Frame) : t.pushLoop frame = .ok (t.openLoop frame) := by
  have hroom : (t.level.loopLevel + 1).toNat < loopDepth := by omega
  have hlow : ¬ t.level.loopLevel + 1 < 0 := by omega
  simp only [pushLoop, openLoop, if_neg hlow, dif_pos hroom, setIfInBounds_eq _ _ hroom]

theorem openFrame?_eq {l : Level} {i : Nat} (h : l.loopLevel + 1 = i + 1) (hi : i < loopDepth) :
    l.openFrame? = some ⟨i, hi⟩ := by
  have hlevel : l.loopLevel = i := by omega
  simp [Level.openFrame?, hlevel, hi]

namespace Keeps

variable {T : Code .row} {k : Kind} {t : Thread} {ctx : Context k} {outer : Context .row}
  {frames : Nat}

theorem sheds {k' : Kind} {ctx' : Context k'} (h : t.Keeps T ctx frames) (hs : ctx.Sheds ctx') :
    t.Keeps T ctx' frames :=
  ⟨h.sub, by rw [hs.depth_eq.1]; exact h.stackIndex, h.level.sheds hs⟩

/-- An arm keeps nothing. -/
theorem arm {ctx : Context .arms} (h : t.Keeps T ctx frames) (more : Code .arms) :
    t.Keeps T (.arm more ctx) frames :=
  ⟨h.sub, by rw [Context.ifs_arm]; exact h.stackIndex,
    by rw [Context.ifs_arm]; exact h.level.ifCounter, h.level.loopLevel, h.level.kept⟩

/-- What is kept is a matter of the control state. -/
theorem congr {t' : Thread} (h : t.Keeps T ctx frames) (hsub : t'.sub = t.sub)
    (hindex : t'.stackIndex = t.stackIndex) (hlevels : t'.levels = t.levels) :
    t'.Keeps T ctx frames := by
  have hlevel : t'.level = t.level := by simp only [Thread.level, hlevels, hsub]
  exact ⟨hsub.trans h.sub, hindex.trans h.stackIndex, hlevel ▸ h.level⟩

theorem jump (h : t.Keeps T ctx frames) (pc : Nat) : (t.jump pc).Keeps T ctx frames :=
  h.congr rfl rfl rfl

theorem moveOn (h : t.Keeps T ctx frames) (size : Nat) : (t.moveOn size).Keeps T ctx frames :=
  h.congr rfl rfl rfl

/-- There is room for an if block. -/
theorem pushBlock (h : t.Keeps T ctx frames) (hroom : ctx.ifs < blockDepth) (resume : Nat) :
    t.pushBlock resume = .ok (t.openIf resume) :=
  pushBlock_eq (by rw [h.stackIndex]; exact hroom) resume

/-- The slot an if block was opened in. -/
theorem slot_openIf (h : t.Keeps T ctx frames) (hroom : ctx.ifs < blockDepth) (resume : Nat) :
    (t.openIf resume).level.stack[ctx.ifs]? = some resume := by
  rw [level_openIf, h.stackIndex]
  exact Vector.getElem?_setIfInBounds_self_of_lt hroom

theorem below_openIf (h : t.Keeps T ctx frames) (resume loops : Nat) :
    Level.Below ctx.ifs loops t.level (t.openIf resume).level := by
  rw [level_openIf, h.stackIndex]
  exact .setStack (Nat.le_refl _) _ _

/-- An if is opened around what keeps its slot. -/
theorem openSlot {ctx' : Context .row} (h : t.Keeps T outer frames) {resume : Nat}
    (hifs : ctx'.ifs = outer.ifs + 1) (hkept : ctx'.Kept T (t.openIf resume).level) :
    (t.openIf resume).Keeps T ctx' frames where
  sub := h.sub
  stackIndex := by rw [hifs, ← h.stackIndex]; rfl
  level := {
    ifCounter := by
      have := h.level.ifCounter
      rw [level_openIf, hifs]
      simp only
      omega
    loopLevel := by rw [level_openIf]; exact h.level.loopLevel
    kept := hkept }

/-- An if without an else is opened. -/
theorem openIf (h : t.Keeps T outer frames) (hroom : outer.ifs < blockDepth) {rest : Code .row}
    {pre : List Step} {resume : Nat} (hplace : Place T pre resume rest outer) :
    (t.openIf resume).Keeps T (.thenOnly rest outer) frames :=
  h.openSlot (Context.ifs_thenOnly ..) ⟨⟨pre, resume, h.slot_openIf hroom resume, hplace⟩,
    h.level.kept.congr (h.below_openIf resume _).agrees⟩

/-- An if with an else is opened. -/
theorem openIfElse (h : t.Keeps T outer frames) (hroom : outer.ifs < blockDepth)
    {other rest : Code .row} {pre : List Step} {resume : Nat}
    (hplace : Place T pre resume other (.elsePart rest outer)) :
    (t.openIf resume).Keeps T (.thenElse other rest outer) frames :=
  h.openSlot (Context.ifs_thenElse ..) ⟨⟨pre, resume, h.slot_openIf hroom resume, hplace⟩,
    h.level.kept.congr (h.below_openIf resume _).agrees⟩

/-- Out of the innermost then-part, which knows where it is resumed. -/
theorem closeIf {cur : Code .row} {ctx' : Context .row} (h : t.Keeps T ctx frames)
    (hu : ctx.Unwinds cur ctx') :
    t.closeIf.Keeps T ctx' frames ∧
      ∃ pre resume, t.popBlock = (t.closeIf, .ok resume) ∧ Place T pre resume cur ctx' := by
  -- the innermost then-part has the slot on top, and what is below it is kept
  obtain ⟨⟨pre, resume, hslot, hplace⟩, hkept⟩ := h.level.kept.unwinds hu
  obtain ⟨hifs, -⟩ := hu.depth_eq
  have hindex := h.stackIndex
  refine ⟨⟨h.sub, ?_, ?_, ?_, ?_⟩, pre, resume, popBlock_eq (by omega) hslot, hplace⟩
  · change t.stackIndex - 1 = ctx'.ifs
    omega
  · have := h.level.ifCounter
    rw [level_closeIf]
    simp only
    omega
  · rw [level_closeIf]
    exact h.level.loopLevel
  · exact hkept.congr (below_closeIf t _ _).agrees

/-- There is room for a loop frame. -/
theorem pushLoop (h : t.Keeps T ctx frames) (hroom : frames < loopDepth) (frame : Frame) :
    t.pushLoop frame = .ok (t.openLoop frame) :=
  pushLoop_eq h.level.loopLevel hroom frame

/-- The innermost frame is open. -/
theorem openFrame? (h : t.Keeps T ctx (frames + 1)) (hi : frames < loopDepth) :
    t.level.openFrame? = some ⟨frames, hi⟩ :=
  openFrame?_eq h.level.loopLevel hi

/-- The slot a loop frame was opened in. -/
theorem slot_openLoop (h : t.Keeps T ctx frames) (hroom : frames < loopDepth) (frame : Frame) :
    (t.openLoop frame).level.frames[frames]? = some frame := by
  rw [level_openLoop, h.level.loopLevel]
  exact Vector.getElem?_setIfInBounds_self_of_lt hroom

theorem below_openLoop (h : t.Keeps T ctx frames) (ifs : Nat) (frame : Frame) :
    Level.Below ifs frames t.level (t.openLoop frame).level := by
  rw [level_openLoop, h.level.loopLevel]
  exact .setFrame (Nat.le_refl _) _ _

/-- One more frame is open, and the blocks around are those that are kept. -/
theorem openFrame {k' : Kind} {ctx' : Context k'} (h : t.Keeps T ctx frames) {frame : Frame}
    (hifs : ctx'.ifs = ctx.ifs) (hkept : ctx'.Kept T (t.openLoop frame).level) :
    (t.openLoop frame).Keeps T ctx' (frames + 1) where
  sub := h.sub
  stackIndex := by rw [hifs]; exact h.stackIndex
  level := {
    ifCounter := by rw [hifs, level_openLoop]; exact h.level.ifCounter
    loopLevel := by
      have := h.level.loopLevel
      rw [level_openLoop]
      simp only
      omega
    kept := hkept }

/-- Into a loop. -/
theorem openLoop (h : t.Keeps T outer outer.loops) (hroom : outer.loops < loopDepth)
    {count : UInt16} {body rest : Code .row} {pre pre' : List Step} {frame : Frame}
    (hif : frame.ifCounter = t.level.ifCounter) (hbreak : Place T pre frame.breakTo rest outer)
    (hbody : Place T pre' frame.body body (.loop count body rest outer)) :
    (t.openLoop frame).Keeps T (.loop count body rest outer) (outer.loops + 1) :=
  h.openFrame (by simp) ⟨⟨pre, pre', frame, h.slot_openLoop hroom frame,
    hif ▸ h.level.ifCounter, hbreak, hbody⟩, h.level.kept.congr (h.below_openLoop _ _).agrees⟩

/-- Into a switch. -/
theorem openSwitch (h : t.Keeps T outer outer.loops) (hroom : outer.loops < loopDepth)
    {rest : Code .row} {pre : List Step} {frame : Frame}
    (hif : frame.ifCounter = t.level.ifCounter) (hbreak : Place T pre frame.breakTo rest outer) :
    (t.openLoop frame).Keeps T (.switch rest outer) (outer.loops + 1) :=
  h.openFrame (by simp) ⟨⟨pre, frame, h.slot_openLoop hroom frame, hif ▸ h.level.ifCounter,
    hbreak⟩, h.level.kept.congr (h.below_openLoop _ _).agrees⟩

/-- Counting a frame down keeps everything. -/
theorem countDown (h : t.Keeps T ctx frames) (i : Fin loopDepth) :
    (t.countDown i).Keeps T ctx frames where
  sub := h.sub
  stackIndex := h.stackIndex
  level := h.level.congr (by rw [level_countDown]) (by rw [level_countDown])
    (by rw [level_countDown]; exact .setCounter i _)

/-- One frame less is open, and the blocks around are those that are kept. -/
theorem dropLoop {k' : Kind} {ctx' : Context k'} (h : t.Keeps T ctx (frames + 1))
    (hifs : ctx'.ifs = ctx.ifs) (hkept : ctx'.Kept T t.level) :
    t.dropLoop.Keeps T ctx' frames where
  sub := h.sub
  stackIndex := by rw [hifs]; exact h.stackIndex
  level := {
    ifCounter := by rw [hifs, level_dropLoop]; exact h.level.ifCounter
    loopLevel := by
      have := h.level.loopLevel
      rw [level_dropLoop]
      simp only
      omega
    kept := hkept.congr (below_dropLoop t _ _).agrees }

/-- Out of the innermost loop or switch, and out of the ifs opened in it. -/
theorem breakOut {cur : Code .row} {ctx' : Context .row} (h : t.Keeps T ctx ctx.loops)
    (hb : ctx.Breaks cur ctx') :
    ∃ i pre, t.level.openFrame? = some i ∧
      (t.breakOut (t.level.frames.get i)).Keeps T ctx' ctx'.loops ∧
      Place T pre (t.level.frames.get i).breakTo cur ctx' := by
  obtain ⟨⟨pre, f, hslot, hif, hplace⟩, hkept⟩ := h.level.kept.breaks hb
  obtain ⟨-, hloops⟩ := hb.depth_eq
  obtain ⟨hi, rfl⟩ := Vector.getElem?_eq_some_iff.mp hslot
  rw [hloops] at h
  refine ⟨⟨ctx'.loops, hi⟩, pre, h.openFrame? hi, ⟨h.sub, ?_, ?_, ?_, ?_⟩, hplace⟩
  · -- the index is made up from the depth that the frame has saved
    have hsync : (t.breakOut (t.level.frames.get ⟨ctx'.loops, hi⟩)).stackIndex =
        ((t.breakOut (t.level.frames.get ⟨ctx'.loops, hi⟩)).level.ifCounter + 1).toNat := rfl
    rw [level_breakOut] at hsync
    simp only [get_eq_getElem] at hsync
    rw [get_eq_getElem, hsync]
    omega
  · rw [level_breakOut]
    exact hif
  · have := h.level.loopLevel
    rw [level_breakOut]
    simp only
    omega
  · exact hkept.congr (below_breakOut t _ _ _).agrees

/-- Inside a loop or a switch a frame is open. -/
theorem openFrame?_of_pos (h : t.Keeps T ctx ctx.loops) (hpos : 0 < ctx.loops) :
    ∃ i, t.level.openFrame? = some i := by
  obtain ⟨cur, ctx', hb⟩ := Context.exists_breaks hpos
  obtain ⟨i, -, hi, -⟩ := h.breakOut hb
  exact ⟨i, hi⟩

end Keeps

end Thread

end RoomScript
