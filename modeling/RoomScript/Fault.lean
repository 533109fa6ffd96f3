import RoomScript.Opcode
import RoomScript.Text.Hex

/-!
# Faults

What can go wrong while a script is decoded or run. Scripts are trusted data, so every fault means
that the script itself is broken: the thread that ran into it is stopped and the fault is handed to
the caller. A fault names its cause; `Fault.message` is the one place that words it.
-/

namespace RoomScript

/-- The causes a script can be stopped for. -/
inductive Fault
  /-- The byte at `pc` is no opcode. -/
  | unknownOpcode (opcode : UInt8) (pc : Nat)
  /-- The instruction at `pc` runs past the end of its `len` bytes. -/
  | truncated (opcode : Opcode) (pc len : Nat)
  /-- There is no byte at `pc`. -/
  | pcOutOfRange (pc len : Nat)
  /-- An if block is closed and none is open. -/
  | emptyBlockStack (pc : Nat)
  /-- An if block is opened and the block stack is full. -/
  | blockStackOverflow (pc : Nat)
  /-- A subroutine is called at the deepest level. -/
  | subLevelOverflow (pc : Nat)
  /-- A loop is continued or closed and none is open. -/
  | loopUnderflow (pc : Nat)
  /-- A loop is opened and every frame is in use. -/
  | loopOverflow (pc : Nat)
  /-- The arms of a switch are interrupted by another instruction. -/
  | unexpectedSwitchOpcode (opcode : Opcode) (pc : Nat)
  /-- A flag is written with an operation that is none of clear, set and flip. -/
  | invalidBitOperation (operation : UInt8)
  /-- A variable is calculated with an operator that does not exist. -/
  | invalidCalcOperation (operation : UInt8)
  /-- A variable is divided by zero. -/
  | divisionByZero (operation : UInt8)
  /-- The script has no such entry point. -/
  | unknownEntry (entry : Nat)
  /-- The pool has no such thread. -/
  | invalidThread (thread : Nat)
  /-- The thread used up the instructions it may run in one pass. -/
  | budgetExceeded (thread budget : Nat)
  deriving DecidableEq, Repr

/-- A hexadecimal number with its mark. -/
private def marked (n : Nat) : String := "0x" ++ Text.hex n

/-- The wording of a fault. -/
def Fault.message : Fault → String
  | .unknownOpcode opcode pc =>
    "unknown opcode: 0x" ++ Text.hexByte opcode ++ " at pc=" ++ marked pc
  | .truncated opcode pc len =>
    "truncated " ++ opcode.mnemonic ++ " at pc=" ++ marked pc ++ ", stream_len=" ++ marked len
  | .pcOutOfRange pc len => "pc out of range: pc=" ++ marked pc ++ ", stream_len=" ++ marked len
  | .emptyBlockStack pc => "block stack is empty at pc=" ++ marked pc
  | .blockStackOverflow pc => "block stack overflow at pc=" ++ marked pc
  | .subLevelOverflow pc => "subroutine nesting overflow at pc=" ++ marked pc
  | .loopUnderflow pc => "no open loop frame at pc=" ++ marked pc
  | .loopOverflow pc => "loop nesting overflow at pc=" ++ marked pc
  | .unexpectedSwitchOpcode opcode pc =>
    "switch scan hit " ++ opcode.mnemonic ++ " at pc=" ++ marked pc
  | .invalidBitOperation operation => s!"set_bit operation {operation} is invalid"
  | .invalidCalcOperation operation => s!"calculator operation {operation} is invalid"
  | .divisionByZero operation => s!"division by zero in calculator operation {operation}"
  | .unknownEntry entry => s!"entry point {entry} does not exist"
  | .invalidThread thread => s!"thread {thread} does not exist"
  | .budgetExceeded thread budget =>
    s!"thread {thread} exceeded its budget of {budget} instructions in one pass"

end RoomScript
