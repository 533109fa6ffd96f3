import RoomScript.Payload.Flow
import RoomScript.Payload.Stage
import RoomScript.Payload.Zone

/-!
# Operands by opcode

The payload type of every opcode that has one, seen as the layout of its printed operands.

**Main statements.** `Opcode.width_operandLayout?`: a payload fills its instruction. Hence
`Opcode.describe_eq_none_iff`: the operands of an instruction with a known payload are missing
exactly when some of its bytes are.
-/

namespace RoomScript

open Payload

/-- The layout of the operands of an instruction whose payload is an `α`. -/
private def shown (α : Type) [Payload α] (op : Opcode) : Option (Layout (List String)) :=
  some (Payload.operands <$> (layout op : Layout α))

namespace Opcode

/-- How the operands of an instruction are laid out, for the opcodes with a known payload. -/
def operandLayout? (op : Opcode) : Option (Layout (List String)) :=
  match op with
  | .evtExec => shown EvtExec op
  | .ifStart | .elseStart => shown Block op
  | .sleep => shown Sleep op
  | .sleeping => shown Sleeping op
  | .forLoop => shown ForLoop op
  | .switch => shown Switch op
  | .caseArm => shown CaseArm op
  | .goto => shown Goto op
  | .gosub => shown Gosub op
  | .check => shown Check op
  | .setBit => shown SetBit op
  | .compare => shown Compare op
  | .save => shown Save op
  | .copy => shown Copy op
  | .calculate => shown Calculate op
  | .calculateFrom => shown CalculateFrom op
  | .cutChg => shown CutChange op
  | .workSet => shown WorkSelect op
  | .posSet => shown PosSet op
  | .memberSet => shown MemberSet op
  | .memberCmp => shown MemberCmp op
  | .scaIdSet => shown CollisionSet op
  | .objModelSet => shown ObjModelSet op
  | .sceEsprOn => shown SpriteOn op
  | .sceEsprKill => shown SpriteKill op
  | .plcMotion => shown PlayerMotion op
  | .plcDest => shown PlayerDest op
  | .plcNeck => shown PlayerNeck op
  | .sceEmSet => shown EnemySet op
  | .sceBgmControl => shown BgmControl op
  | .aotSet | .aotSet4p => shown AotSet op
  | .doorAotSet | .doorAotSet4p => shown DoorSet op
  | .itemAotSet | .itemAotSet4p => shown ItemSet op
  | .aotReset => shown AotReset op
  | _ => none

/-- **A payload fills its instruction.** -/
theorem width_operandLayout? {op : Opcode} {l : Layout (List String)}
    (h : op.operandLayout? = some l) : 1 + l.width = op.size := by
  cases op <;> cases h <;> rfl

/-- The operands of an instruction and the number of bytes they were read from, opcode byte
included. `none` if the opcode has no known payload. The opcode byte itself is skipped, not looked
at. -/
def operands? (op : Opcode) (raw : Bytes) : Option (Except ReadError (List String × Nat)) :=
  op.operandLayout?.map fun l =>
    match l.ofBytes raw with
    | some operands => .ok (operands, 1 + l.width)
    | none => .error .tooShort

/-- The operands of an instruction, if its payload is known and complete. -/
def describe (op : Opcode) (raw : Bytes) : Option (List String) :=
  (op.operands? raw).bind fun listed => listed.toOption.map Prod.fst

theorem describe_of_operands? {op : Opcode} {raw : Bytes} {operands : List String} {used : Nat}
    (h : op.operands? raw = some (.ok (operands, used))) : op.describe raw = some operands := by
  rw [describe, h]
  rfl

theorem describe_eq_none_iff {op : Opcode} {l : Layout (List String)}
    (h : op.operandLayout? = some l) (raw : Bytes) :
    op.describe raw = none ↔ raw.size < op.size := by
  rw [describe, operands?, h, Option.map_some, Option.bind_some, ← width_operandLayout? h,
    ← l.ofBytes_eq_none_iff raw]
  cases l.ofBytes raw <;> simp [Except.toOption]

end Opcode

end RoomScript
