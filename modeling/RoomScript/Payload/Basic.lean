import RoomScript.Fault
import RoomScript.Layout

/-!
# Payloads

A payload is what an instruction carries after its opcode byte. Each payload type has a layout,
which may depend on the opcode (trigger zones come in a rectangle and in a four-point form), and a
way to be shown as a list of operands.

`Payload.decode` reads a whole instruction, opcode byte included; `Payload.decodeAt` is the same
reading for an interpreter that stands at an address and wants a `Fault`.
-/

namespace RoomScript

/-- Why bytes could not be read as an instruction. -/
inductive ReadError
  /-- Bytes are missing. -/
  | tooShort
  /-- The first byte is no opcode. -/
  | unknownOpcode (byte : UInt8)
  deriving DecidableEq, Repr

/-- A payload type: how it is laid out behind a given opcode, and the operands it shows. -/
class Payload (α : Type) where
  layout : Opcode → Layout α
  operands : α → List String

namespace Payload

/-- The payload of an instruction. The opcode byte has to be an opcode, but any one is accepted: it
only selects the layout. -/
def decode (α : Type) [Payload α] (raw : Bytes) : Except ReadError α :=
  match raw[0]? with
  | none => .error .tooShort
  | some byte =>
    match Opcode.ofByte? byte with
    | none => .error (.unknownOpcode byte)
    | some op =>
      match (layout op : Layout α).ofBytes raw with
      | none => .error .tooShort
      | some payload => .ok payload

/-- The fault that stands for an instruction at `pc` whose bytes `raw` could not be read: truncated
if it starts with an opcode, unknown otherwise. -/
def readFault (raw : Bytes) (pc : Nat) : Fault :=
  match raw[0]? with
  | none => .unknownOpcode 0 pc
  | some byte =>
    match Opcode.ofByte? byte with
    | none => .unknownOpcode byte pc
    | some op => .truncated op pc raw.size

/-- The payload of the instruction at `pc`. -/
def decodeAt (α : Type) [Payload α] (raw : Bytes) (pc : Nat) : Except Fault α :=
  match decode α raw with
  | .ok payload => .ok payload
  | .error _ => .error (readFault raw pc)

/-- **An instruction with all its bytes is decoded.** -/
theorem decodeAt_of_ofBytes [Payload α] {raw : Bytes} {op : Opcode} {payload : α} (pc : Nat)
    (hop : raw[0]? = some op.toByte) (hp : (layout op : Layout α).ofBytes raw = some payload) :
    decodeAt α raw pc = .ok payload := by
  simp [decodeAt, decode, hop, hp]

end Payload

end RoomScript
