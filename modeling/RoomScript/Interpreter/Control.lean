import RoomScript.Interpreter.Reaction
import RoomScript.Payload.Flow

/-!
# Control instructions

Events, if and else, loops, switches, sleeping and subroutines.

A condition that fails does not jump by itself: it unwinds, and the dispatcher goes on where the
innermost if block ends. An else header is only reached from a branch that was taken, so it skips
its block. A loop frame and an if block are kept on different stacks; leaving a loop closes the if
blocks that were opened in it.
-/

namespace RoomScript.Control

open Payload

variable {n : Nat}

/-! ### Events -/

/-- Returns from a subroutine; on the outermost level the thread is done. -/
def evtEnd (site : Site n) : Reaction n :=
  match site.thread.leaveSubroutine with
  | some t => site.become t .next [.returned t.id t.pc t.sub]
  | none => site.become site.thread.halt .halt [.ended site.thread.id]

/-- What came of scheduling an event: what there is to say, and the thread that took it with the
pool afterwards. -/
structure Scheduled (n : Nat) where
  notices : List Notice := []
  result : Except Fault (Fin n × Pool n)

/-- Starts an event at an address on a thread. -/
def startOn (pool : Pool n) (i : Fin n) (address : Nat) (event : UInt8)
    (before : List Notice := []) : Scheduled n :=
  { notices := before ++ [.eventStarted i address event]
    result := .ok (i, pool.modify i (·.activate address)) }

/-- Starts an event on the thread it names, on the first idle one if the pool has no such thread,
and on the first one if all are busy. -/
def schedule (script : Script) (pool : Pool n) (p : EvtExec) : Scheduled n :=
  match script.entry p.event.toNat with
  | .error f => { result := .error f }
  | .ok address =>
    if h : p.thread.toNat < n then startOn pool ⟨p.thread.toNat, h⟩ address p.event
    else
      match pool.firstIdle? with
      | some i => startOn pool i address p.event
      | none =>
        if h : 0 < n then startOn pool ⟨0, h⟩ address p.event [.noIdleThread p.event]
        else { notices := [.noIdleThread p.event], result := .error (.invalidThread 0) }

/-- Starts an event. -/
def evtExec (site : Site n) (p : EvtExec) : Reaction n :=
  let scheduled := schedule site.script site.pool p
  match scheduled.result with
  | .ok (_, pool) => { pool := pool, notices := scheduled.notices, result := .ok .next }
  | .error f => { pool := site.pool, notices := scheduled.notices, result := .error f }

/-! ### If blocks -/

/-- Opens an if block. -/
def ifStart (site : Site n) (p : Block) : Reaction n :=
  let resume := site.pc + Opcode.ifStart.size + p.length.toNat
  match site.thread.pushBlock resume with
  | .ok t => site.become t .next [.ifOpened site.current resume]
  | .error f => site.fault f

/-- Closes the innermost if block and goes on at an address that depends on the thread. -/
def leaveBlock (site : Site n) (go : Thread → Thread) : Reaction n :=
  match site.thread.popBlock with
  | (t, .ok _) => site.become (go t) .next
  | (t, .error f) => { pool := site.replace t, result := .error f }

/-- Skips the else block of an if whose condition held. -/
def elseStart (site : Site n) (p : Block) : Reaction n :=
  leaveBlock site fun t => t.jump (t.pc + p.length.toNat)

/-- Closes an if block. -/
def endIf (site : Site n) : Reaction n := leaveBlock site id

/-! ### Sleeping -/

/-- Opens a tick counter and steps onto the sleeping instruction inside this one. -/
def sleep (site : Site n) (p : Sleep) : Reaction n :=
  site.attempt
    ((site.thread.pushLoop { counter := p.count.toNat }).map fun t => t.jump (t.pc + 1)) .next

/-- Counts one tick, and stays here until the counter has run out. -/
def sleeping (site : Site n) : Reaction n :=
  let t := site.thread
  site.attempt (do
    let frame ← t.currentLoop
    let counted ← t.setCounter (frame.counter - 1)
    -- The counter in the slot is counted down even when the frame is closed.
    if frame.counter - 1 ≤ 0 then
      let (_, done) ← counted.popLoop
      return done.jump (t.pc + Opcode.sleeping.size)
    else return counted.jump t.pc) .halt

/-! ### Loops -/

/-- Opens a counted loop; one without rounds is skipped. -/
def forStart (site : Site n) (p : ForLoop) : Reaction n :=
  let t := site.thread
  let body := t.pc + Opcode.forLoop.size
  let behind := body + p.length.toNat
  if p.count = 0 then site.become (t.jump behind) .next
  else
    let frame : Frame :=
      { counter := p.count.toNat, breakTo := behind, body := body, ifCounter := t.level.ifCounter }
    site.attempt ((t.pushLoop frame).map (·.jump body)) .next

/-- Ends a round of a loop. -/
def forEnd (site : Site n) : Reaction n :=
  let t := site.thread
  site.attempt (do
    let frame ← t.currentLoop
    let counted ← t.setCounter (frame.counter - 1)
    if 0 < frame.counter - 1 then return counted.jump frame.body
    else
      let (_, done) ← counted.popLoop
      return done.jump (t.pc + Opcode.forEnd.size)) .next

/-- Leaves the innermost loop or switch, and the if blocks opened in it. -/
def breakLoop (site : Site n) : Reaction n :=
  site.attempt (do
    let (frame, t) ← site.thread.popLoop
    let t := t.setLevel { t.level with ifCounter := frame.ifCounter }
    return t.syncStackIndex.jump frame.breakTo) .next

/-! ### Switches -/

/-- Where the search for an arm ended. -/
inductive Arm
  /-- In the body of an arm. -/
  | body (address : Nat)
  /-- Behind the switch, which has no arm for the value. -/
  | behind (address : Nat)

set_option linter.unusedVariables false in
/-- Looks for the first arm of a switch that takes a value, from one arm to the next. -/
def findArm (script : Script) (value : Int32) (scan : Nat) : Except Fault Arm :=
  match hf : script.fetch scan with
  | .error f => .error f
  | .ok (.caseArm, raw) =>
    match decodeAt CaseArm raw scan with
    | .error f => .error f
    | .ok arm =>
      -- The value of an arm is never negative, so a negative variable has no arm but the default.
      if (arm.value.toNat : Int) = value.toInt then .ok (.body (scan + Opcode.caseArm.size))
      else findArm script value (scan + Opcode.caseArm.size + arm.length.toNat)
  | .ok (.defaultCase, _) => .ok (.body (scan + Opcode.defaultCase.size))
  | .ok (.endSwitch, _) => .ok (.behind (scan + Opcode.endSwitch.size))
  | .ok (op, _) => .error (.unexpectedSwitchOpcode op scan)
termination_by script.data.size - scan
decreasing_by
  have h := (Script.fetch_eq_ok_iff.mp hf).2.1
  have : Opcode.caseArm.size = 6 := rfl
  omega

/-- Opens a switch and goes to the arm that takes the value of its variable. The frame stays open
when the search faults. -/
def switch (site : Site n) (view : Host.View) (p : Switch) : Reaction n :=
  let t := site.thread
  let first := t.pc + Opcode.switch.size
  let value := view.var p.var
  let frame : Frame :=
    { breakTo := first + p.length.toNat, body := first, ifCounter := t.level.ifCounter }
  match t.pushLoop frame with
  | .error f => site.fault f
  | .ok opened =>
    let goTo (t : Thread) (address : Nat) :=
      site.become (t.jump address) .next [.switched t.id p.var value address]
    match findArm site.script value first with
    | .error f => { pool := site.replace opened, result := .error f }
    | .ok (.body address) => goTo opened address
    | .ok (.behind address) =>
      match opened.popLoop with
      | .ok (_, closed) => goTo closed address
      | .error f => { pool := site.replace opened, result := .error f }

/-- Closes a switch whose last arm ran into its end. -/
def endSwitch (site : Site n) : Reaction n :=
  site.attempt (site.thread.popLoop.map (·.2)) .next

/-! ### Jumps and subroutines -/

/-- A jump is read and not followed. -/
def goto (site : Site n) (p : Goto) : Reaction n :=
  site.goOn .next [.gotoIgnored site.current p.offset]

/-- Calls an entry point of the script. -/
def gosub (site : Site n) (p : Gosub) : Reaction n :=
  match site.script.entry p.event.toNat with
  | .error f => site.fault f
  | .ok target =>
    match site.thread.enterSubroutine (site.pc + Opcode.gosub.size) target with
    | .ok t => site.become t .next [.called t.id p.event target t.sub]
    | .error f => site.fault f

end RoomScript.Control
