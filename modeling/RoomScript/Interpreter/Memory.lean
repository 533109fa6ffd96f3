import RoomScript.Calculator
import RoomScript.Interpreter.Reaction

/-!
# Instructions on flags and variables

Conditions unwind when they fail. Everything else reads what it needs, computes, and asks for at
most one write, so an instruction that faults has written nothing.
-/

namespace RoomScript.Memory

open Payload

variable {n : Nat}

/-- Passes if a flag has a value. -/
def check (site : Site n) (view : Host.View) (p : Check) : Reaction n :=
  let bit : UInt8 := if view.bit p.array p.bit then 1 else 0
  site.goOn (Flow.ofCondition (bit = p.value))

/-- Clears, sets or flips a flag. -/
def setBit (site : Site n) (view : Host.View) (p : SetBit) : Reaction n :=
  let put (on : Bool) := site.ask [.setBit p.array p.bit on]
  match p.operation.toNat with
  | 0 => put false
  | 1 => put true
  | 7 => put (!view.bit p.array p.bit)
  | _ => site.fault (.invalidBitOperation p.operation)

/-- What there is to say about the operator of a comparison. -/
def relationNotices (operation : UInt8) : List Notice :=
  if Calculator.isRelation operation then [] else [.unknownRelation operation]

/-- Passes if a variable compares with a literal as told. -/
def compare (site : Site n) (view : Host.View) (p : Compare) : Reaction n :=
  site.goOn (Flow.ofCondition
      (Calculator.compareValues p.operation (view.var p.var) p.value.toInt32))
    (relationNotices p.operation)

/-- Stores a literal in a variable. -/
def save (site : Site n) (p : Save) : Reaction n := site.ask [.setVariable p.var p.value.toInt32]

/-- Copies a variable. -/
def copy (site : Site n) (view : Host.View) (p : Copy) : Reaction n :=
  site.ask [.setVariable p.dest (view.var p.source)]

/-- Stores the value of a calculation in a variable. -/
def store (site : Site n) (var : UInt8) (value : Except Fault Int32) : Reaction n :=
  match value with
  | .ok value => site.ask [.setVariable var value]
  | .error f => site.fault f

/-- Calculates a variable from itself and a literal. -/
def calculate (site : Site n) (view : Host.View) (p : Calculate) : Reaction n :=
  store site p.var (Calculator.calculate p.operation (view.var p.var) p.value.toInt32)

/-- Calculates a variable from itself and another one. -/
def calculateFrom (site : Site n) (view : Host.View) (p : CalculateFrom) : Reaction n :=
  store site p.var (Calculator.calculate p.operation (view.var p.var) (view.var p.source))

end RoomScript.Memory
