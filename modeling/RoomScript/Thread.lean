import RoomScript.Fault

/-!
# Threads

A script runs on cooperative threads. A thread has an address, four subroutine levels, and on each
level a stack of open if blocks and a stack of open loop frames. What a level has closed stays in
its slots until it is overwritten; only the counters say how much of a level is in use.

The number of open blocks is kept twice: as the counter of the level, from which it is restored when
a subroutine returns or a loop is left, and as the thread's own index into the block stack.

**Main statements.** `Thread.level_setLevel` and `Thread.setLevel_level`: the current level is read
and written like a field. The `simp` lemmas beside the operations say which of them leave it alone.
-/

namespace RoomScript

/-- The number of subroutine levels of a thread. -/
abbrev levelCount : Nat := 4

/-- The number of if blocks that can be open on a level. -/
abbrev blockDepth : Nat := 16

/-- The number of loop frames that can be open on a level. -/
abbrev loopDepth : Nat := 8

/-- One open loop, switch or sleep. -/
structure Frame where
  /-- Rounds or ticks to go. -/
  counter : Int := 0
  /-- Where leaving the loop goes on. -/
  breakTo : Nat := 0
  /-- Where a round of the loop starts. -/
  body : Nat := 0
  /-- The if counter that leaving the loop restores. -/
  ifCounter : Int := 0
  deriving DecidableEq, Repr, Inhabited

/-- The control state of one subroutine level. -/
structure Level where
  /-- One less than the number of open if blocks. -/
  ifCounter : Int := -1
  /-- Where the open if blocks end, from the outermost on. -/
  stack : Vector Nat blockDepth := Vector.replicate blockDepth 0
  /-- Where the subroutine called from this level returns to. -/
  returnTo : Nat := 0
  /-- One less than the number of open loop frames. -/
  loopLevel : Int := -1
  /-- The loop frames, from the outermost on. -/
  frames : Vector Frame loopDepth := Vector.replicate loopDepth {}
  deriving DecidableEq, Repr, Inhabited

namespace Level

/-- Nothing is open any more; the slots keep what they hold. -/
def resetCounters (l : Level) : Level := { l with ifCounter := -1, loopLevel := -1 }

/-- The slot of the innermost open loop frame. -/
def openFrame? (l : Level) : Option (Fin loopDepth) :=
  if h : 0 ≤ l.loopLevel ∧ l.loopLevel.toNat < loopDepth then some ⟨l.loopLevel.toNat, h.2⟩
  else none

/-- The innermost open loop frame. -/
def currentLoop? (l : Level) : Option Frame := l.openFrame?.map (l.frames[·])

end Level

/-- What a script has selected for its position and member writes. -/
structure WorkSet where
  component : UInt8 := 0
  index : UInt8 := 0
  deriving DecidableEq, Repr, Inhabited

/-- The entity a work set stands for. -/
inductive Target
  | nothing
  | player
  | enemy (index : UInt8)
  | object (index : UInt8)
  | other (component : UInt8)
  deriving DecidableEq, Repr

/-- The entity that is selected. -/
def WorkSet.target (w : WorkSet) : Target :=
  match w.component.toNat with
  | 0 => .nothing
  | 1 => .player
  | 3 => .enemy w.index
  | 4 => .object w.index
  | _ => .other w.component

/-- A selected entity as messages show it. -/
def Target.text : Target → String
  | .nothing => "None"
  | .player => "Player"
  | .enemy index => s!"Enemy({index})"
  | .object index => s!"Object({index})"
  | .other component => s!"Other({component})"

/-- One cooperative script thread. -/
structure Thread where
  id : Nat
  /-- Idle threads are passed over. -/
  running : Bool := false
  pc : Nat := 0
  /-- The current subroutine level. -/
  sub : Fin levelCount := 0
  /-- The number of slots of the block stack in use. -/
  stackIndex : Nat := 0
  workSet : WorkSet := {}
  /-- Set when an instruction has placed `pc` itself, so that it is not moved on. -/
  overridden : Bool := false
  levels : Vector Level levelCount := Vector.replicate levelCount {}
  deriving DecidableEq, Repr

namespace Thread

/-- A thread that has not been started yet. -/
def idle (id : Nat) : Thread := { id := id }

/-! ### The current level -/

/-- The control state of the current level. -/
def level (t : Thread) : Level := t.levels[t.sub]

/-- Replaces the control state of the current level. -/
def setLevel (t : Thread) (l : Level) : Thread := { t with levels := t.levels.set t.sub l }

@[simp] theorem level_setLevel (t : Thread) (l : Level) : (t.setLevel l).level = l := by
  simp [level, setLevel]

@[simp] theorem setLevel_level (t : Thread) : t.setLevel t.level = t := by
  simp [level, setLevel]

/-! ### Scheduling -/

/-- Makes the thread idle. -/
def halt (t : Thread) : Thread := { t with running := false }

/-- Moves to `pc`, and keeps the instruction being executed from being stepped over. -/
def jump (t : Thread) (pc : Nat) : Thread := { t with pc := pc, overridden := true }

@[simp] theorem level_halt (t : Thread) : t.halt.level = t.level := rfl

@[simp] theorem level_jump (t : Thread) (pc : Nat) : (t.jump pc).level = t.level := rfl

@[simp] theorem pc_jump (t : Thread) (pc : Nat) : (t.jump pc).pc = pc := rfl

/-- Starts the thread at `pc`, on its outermost level with nothing open there. -/
def activate (t : Thread) (pc : Nat) : Thread :=
  { t with
    running := true
    sub := 0
    stackIndex := 0
    levels := t.levels.set 0 t.levels[0].resetCounters }.jump pc

/-- Steps over an instruction of the given size unless `pc` was placed, and forgets that it was. -/
def moveOn (t : Thread) (size : Nat) : Thread :=
  { t with pc := if t.overridden then t.pc else t.pc + size, overridden := false }

/-! ### If blocks -/

/-- Opens an if block that ends at `resume`. -/
def pushBlock (t : Thread) (resume : Nat) : Except Fault Thread :=
  if h : t.stackIndex < blockDepth then
    let l := t.level
    let l := { l with stack := l.stack.set t.stackIndex resume, ifCounter := l.ifCounter + 1 }
    .ok { t.setLevel l with stackIndex := t.stackIndex + 1 }
  else .error (.blockStackOverflow t.pc)

/-- Closes the innermost if block and gives the address where it ends. The block counts as closed
even when the index was beyond the stack and there is no address to give. -/
def popBlock (t : Thread) : Thread × Except Fault Nat :=
  if t.stackIndex = 0 then (t, .error (.emptyBlockStack t.pc))
  else
    let l := t.level
    ({ t.setLevel { l with ifCounter := l.ifCounter - 1 } with stackIndex := t.stackIndex - 1 },
      match l.stack[t.stackIndex - 1]? with
      | some resume => .ok resume
      | none => .error (.emptyBlockStack t.pc))

/-- Takes the index into the block stack from the counter of the current level. -/
def syncStackIndex (t : Thread) : Thread :=
  { t with stackIndex := (t.level.ifCounter + 1).toNat }

@[simp] theorem level_syncStackIndex (t : Thread) : t.syncStackIndex.level = t.level := rfl

/-! ### Loop frames -/

/-- Opens a loop frame. -/
def pushLoop (t : Thread) (frame : Frame) : Except Fault Thread :=
  let l := t.level
  -- A level below minus one cannot come from opening and closing frames.
  if l.loopLevel + 1 < 0 then .error (.loopUnderflow t.pc)
  else if h : (l.loopLevel + 1).toNat < loopDepth then
    .ok (t.setLevel { l with
      frames := l.frames.set (l.loopLevel + 1).toNat frame, loopLevel := l.loopLevel + 1 })
  else .error (.loopOverflow t.pc)

/-- The innermost open loop frame. -/
def currentLoop (t : Thread) : Except Fault Frame :=
  match t.level.currentLoop? with
  | some frame => .ok frame
  | none => .error (.loopUnderflow t.pc)

/-- Sets the counter of the innermost open loop frame. -/
def setCounter (t : Thread) (counter : Int) : Except Fault Thread :=
  let l := t.level
  match l.openFrame? with
  | some i => .ok (t.setLevel { l with
      frames := l.frames.set i { l.frames[i] with counter := counter } })
  | none => .error (.loopUnderflow t.pc)

/-- Closes the innermost loop frame and gives it back. -/
def popLoop (t : Thread) : Except Fault (Frame × Thread) :=
  match t.level.currentLoop? with
  | some frame => .ok (frame, t.setLevel { t.level with loopLevel := t.level.loopLevel - 1 })
  | none => .error (.loopUnderflow t.pc)

/-! ### Subroutines -/

/-- Calls the subroutine at `target`, to return to `returnTo`. -/
def enterSubroutine (t : Thread) (returnTo target : Nat) : Except Fault Thread :=
  if h : t.sub.val + 1 < levelCount then
    -- The return address belongs to the calling level.
    let t := t.setLevel { t.level with returnTo := returnTo }
    let t := { t with sub := ⟨t.sub.val + 1, h⟩, stackIndex := 0 }
    .ok ((t.setLevel t.level.resetCounters).jump target)
  else .error (.subLevelOverflow t.pc)

/-- Returns to the calling level; there is none to return to on the outermost one. -/
def leaveSubroutine (t : Thread) : Option Thread :=
  if t.sub.val = 0 then none
  else
    let t := { t with sub := ⟨t.sub.val - 1, by have := t.sub.isLt; omega⟩ }
    some (t.syncStackIndex.jump t.level.returnTo)

end Thread

end RoomScript
