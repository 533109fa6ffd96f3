import RoomScript.Fault

/-!
# The calculator

The arithmetic of script variables: 32-bit words that wrap around. Shift amounts count modulo 32, a
negative one too, and both right shifts keep the sign. A comparison with an operator that does not
exist passes.
-/

namespace RoomScript.Calculator

/-- The value of an operation on variables. -/
def calculate (operation : UInt8) (lhs rhs : Int32) : Except Fault Int32 :=
  match operation.toNat with
  | 0 => .ok (lhs + rhs)
  | 1 => .ok (lhs - rhs)
  | 2 => .ok (lhs * rhs)
  -- The one quotient that does not fit a word wraps around like any other result.
  | 3 => if rhs = 0 then .error (.divisionByZero operation) else .ok (lhs / rhs)
  | 4 => if rhs = 0 then .error (.divisionByZero operation) else .ok (lhs % rhs)
  | 5 => .ok (lhs ||| rhs)
  | 6 => .ok (lhs &&& rhs)
  | 7 => .ok (lhs ^^^ rhs)
  | 8 => .ok (~~~lhs)
  | 9 => .ok (lhs <<< rhs)
  | 10 => .ok (lhs >>> rhs)
  | 11 => .ok (lhs >>> rhs)
  | _ => .error (.invalidCalcOperation operation)

/-- The relations a comparison knows. -/
def isRelation (operation : UInt8) : Bool := operation.toNat ≤ 6

/-- Whether a comparison passes. -/
def compareValues (operation : UInt8) (lhs rhs : Int32) : Bool :=
  match operation.toNat with
  | 0 => lhs = rhs
  | 1 => rhs < lhs
  | 2 => rhs ≤ lhs
  | 3 => lhs < rhs
  | 4 => lhs ≤ rhs
  | 5 => lhs ≠ rhs
  | 6 => lhs &&& rhs ≠ 0
  | _ => true

end RoomScript.Calculator
