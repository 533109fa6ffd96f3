import RoomScript.Payload.Basic

/-!
# Payloads that read and write flags and variables

The operator bytes are kept as they are: an operator without a meaning is shown as a question mark
and is dealt with when the instruction runs.
-/

namespace RoomScript.Payload

open Layout

/-! ### Operators as text -/

/-- The relation an operator byte of a comparison stands for. -/
def compareSymbol (operation : UInt8) : String :=
  match operation.toNat with
  | 0 => "=="
  | 1 => ">"
  | 2 => ">="
  | 3 => "<"
  | 4 => "<="
  | 5 => "!="
  | 6 => "&"
  | _ => "?"

/-- The operation an operator byte of the calculator stands for. -/
def calcSymbol (operation : UInt8) : String :=
  match operation.toNat with
  | 0 => "+"
  | 1 => "-"
  | 2 => "*"
  | 3 => "/"
  | 4 => "%"
  | 5 => "|"
  | 6 => "&"
  | 7 => "^"
  | 8 => "~"
  | 9 => "<<"
  | 10 => ">>"
  | 11 => ">>>"
  | _ => "?"

/-- What an operation byte does to a flag. -/
def bitOperationName (operation : UInt8) : String :=
  match operation.toNat with
  | 0 => "clear"
  | 1 => "set"
  | 7 => "flip"
  | _ => "?"

/-! ### Payloads -/

/-- Tests one flag. -/
structure Check where
  array : UInt8
  bit : UInt8
  value : UInt8
  deriving DecidableEq, Repr

instance : Payload Check where
  layout _ := Check.mk <$> u8 <*> u8 <*> u8
  operands p := [s!"array={p.array}", s!"bit={p.bit}", s!"value={p.value}"]

/-- Clears, sets or flips one flag. -/
structure SetBit where
  array : UInt8
  bit : UInt8
  operation : UInt8
  deriving DecidableEq, Repr

instance : Payload SetBit where
  layout _ := SetBit.mk <$> u8 <*> u8 <*> u8
  operands p := [s!"array={p.array}", s!"bit={p.bit}", "op=" ++ bitOperationName p.operation]

/-- Compares a variable with a literal. -/
structure Compare where
  var : UInt8
  operation : UInt8
  value : Int16
  deriving DecidableEq, Repr

instance : Payload Compare where
  layout _ := pad 1 *> (Compare.mk <$> u8 <*> u8 <*> i16)
  operands p := [s!"var={p.var}", "op=" ++ compareSymbol p.operation, s!"value={p.value}"]

/-- Stores a literal in a variable. -/
structure Save where
  var : UInt8
  value : Int16
  deriving DecidableEq, Repr

instance : Payload Save where
  layout _ := Save.mk <$> u8 <*> i16
  operands p := [s!"var={p.var}", s!"value={p.value}"]

/-- Copies one variable into another. -/
structure Copy where
  dest : UInt8
  source : UInt8
  deriving DecidableEq, Repr

instance : Payload Copy where
  layout _ := Copy.mk <$> u8 <*> u8
  operands p := [s!"dest={p.dest}", s!"source={p.source}"]

/-- Calculates a variable from itself and a literal. -/
structure Calculate where
  operation : UInt8
  var : UInt8
  value : Int16
  deriving DecidableEq, Repr

instance : Payload Calculate where
  layout _ := pad 1 *> (Calculate.mk <$> u8 <*> u8 <*> i16)
  operands p := [s!"var={p.var}", "op=" ++ calcSymbol p.operation, s!"value={p.value}"]

/-- Calculates a variable from itself and another variable. -/
structure CalculateFrom where
  operation : UInt8
  var : UInt8
  source : UInt8
  deriving DecidableEq, Repr

instance : Payload CalculateFrom where
  layout _ := CalculateFrom.mk <$> u8 <*> u8 <*> u8
  operands p := [s!"var={p.var}", "op=" ++ calcSymbol p.operation, s!"source={p.source}"]

end RoomScript.Payload
