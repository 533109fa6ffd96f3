import RoomScript.Table

/-!
# Flags

Scripts share banks of 256 flags each, packed into eight words. A bank exists once a flag of it has
been written; the flags of a missing bank are clear.
-/

namespace RoomScript

/-- The words of one bank. -/
abbrev Bank := Vector UInt32 8

/-- The flag banks in use. -/
structure Flags where
  banks : Table Bank := {}
  deriving DecidableEq, Repr, Inhabited

namespace Flags

/-- The word of a bank that holds a flag. -/
def wordIndex (bit : UInt8) : Fin 8 := ⟨bit.toNat / 32, by have := bit.toNat_lt; omega⟩

/-- The place of a flag in its word. -/
def mask (bit : UInt8) : UInt32 := 1 <<< (UInt32.ofNat (bit.toNat % 32))

/-- Whether a flag is set. -/
def get (f : Flags) (array bit : UInt8) : Bool :=
  match f.banks.get? array with
  | some bank => bank[wordIndex bit] &&& mask bit != 0
  | none => false

/-- Sets or clears a flag. -/
def set (f : Flags) (array bit : UInt8) (on : Bool) : Flags :=
  let bank := (f.banks.get? array).getD (Vector.replicate 8 0)
  let word := bank[wordIndex bit]
  let word := if on then word ||| mask bit else word &&& ~~~mask bit
  ⟨f.banks.insert array (bank.set (wordIndex bit) word)⟩

end Flags

end RoomScript
