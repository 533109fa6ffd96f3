import RoomScript.Payload.Basic

/-!
# Payloads of the control instructions

Events, blocks, loops, switches, sleeping, jumps and subroutine calls. Block lengths are measured in
bytes; from where is the business of the instruction that carries them.
-/

namespace RoomScript.Payload

open Layout

/-- Starts entry point `event` on a thread. A thread index outside the pool asks for any idle
thread. -/
structure EvtExec where
  thread : UInt8
  exOpcode : UInt8
  event : UInt8
  deriving DecidableEq, Repr

instance : Payload EvtExec where
  layout _ := EvtExec.mk <$> u8 <*> u8 <*> u8
  operands p := [s!"thread={p.thread}", s!"event={p.event}"]

/-- The instruction that starts the event. -/
def EvtExec.encode (p : EvtExec) : Bytes := #[Opcode.evtExec.toByte, p.thread, p.exOpcode, p.event]

/-- The header of an if or else block. -/
structure Block where
  length : UInt16
  deriving DecidableEq, Repr

instance : Payload Block where
  layout _ := pad 1 *> (Block.mk <$> u16)
  operands p := [s!"len={p.length}"]

/-- Opens a tick counter. The byte before the count is the opcode `sleeping`, so that the address
after the opcode byte holds a `Sleeping` of the same count. -/
structure Sleep where
  count : UInt16
  deriving DecidableEq, Repr

instance : Payload Sleep where
  layout _ := pad 1 *> (Sleep.mk <$> u16)
  operands p := [s!"ticks={p.count}"]

/-- Waits on an open tick counter. -/
structure Sleeping where
  count : UInt16
  deriving DecidableEq, Repr

instance : Payload Sleeping where
  layout _ := Sleeping.mk <$> u16
  operands p := [s!"ticks={p.count}"]

/-- The header of a counted loop; its block spans the body and the closing instruction. -/
structure ForLoop where
  length : UInt16
  count : UInt16
  deriving DecidableEq, Repr

instance : Payload ForLoop where
  layout _ := pad 1 *> (ForLoop.mk <$> u16 <*> u16)
  operands p := [s!"len={p.length}", s!"count={p.count}"]

/-- The header of a switch over a variable. -/
structure Switch where
  var : UInt8
  length : UInt16
  deriving DecidableEq, Repr

instance : Payload Switch where
  layout _ := Switch.mk <$> u8 <*> u16
  operands p := [s!"var={p.var}", s!"len={p.length}"]

/-- One arm of a switch; its length covers the body only, so that the next arm starts after it. -/
structure CaseArm where
  length : UInt16
  value : UInt16
  deriving DecidableEq, Repr

instance : Payload CaseArm where
  layout _ := pad 1 *> (CaseArm.mk <$> u16 <*> u16)
  operands p := [s!"len={p.length}", s!"value={p.value}"]

/-- A relative jump with the nesting it expects to leave. -/
structure Goto where
  ifCounter : Int8
  loopLevel : Int8
  offset : Int16
  deriving DecidableEq, Repr

instance : Payload Goto where
  layout _ := Goto.mk <$> i8 <*> i8 <* pad 1 <*> i16
  operands p := [s!"if_counter={p.ifCounter}", s!"loop_level={p.loopLevel}", s!"offset={p.offset}"]

/-- Calls entry point `event` as a subroutine. -/
structure Gosub where
  event : UInt8
  deriving DecidableEq, Repr

instance : Payload Gosub where
  layout _ := Gosub.mk <$> u8
  operands p := [s!"event={p.event}"]

end RoomScript.Payload
