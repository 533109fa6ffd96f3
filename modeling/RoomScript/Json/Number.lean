import RoomScript.Single

/-!
# Numbers in JSON texts

A numeral is kept as it was written. It counts as a whole number if it has neither a point nor an
exponent and fits 64 bits, and as a floating-point number otherwise; minus zero is the latter.

A floating-point number is read from as many leading digits as fit 64 bits, scaled by a power of ten
in one multiplication or division; a number too large to be finite is refused.
-/

namespace RoomScript.Json

/-- A numeral, digit by digit. -/
structure Numeral where
  negative : Bool
  /-- The digits before the point. -/
  whole : List Nat
  /-- The digits behind the point. -/
  fraction : List Nat := []
  /-- Whether the exponent is negative, and its digits. -/
  exponent : Option (Bool × List Nat) := none
  deriving DecidableEq, Repr

namespace Numeral

/-- The number of digits in base ten. -/
def ofDigits (ds : List Nat) : Nat := ds.foldl (fun n d => 10 * n + d) 0

/-- The number of words of 64 bits. -/
def wordCount : Nat := 0x10000000000000000

/-- The whole number a numeral stands for, if it is one of 64 bits. -/
def toInt? (n : Numeral) : Option Int :=
  if n.fraction.isEmpty && n.exponent.isNone then
    let magnitude := ofDigits n.whole
    if n.negative then
      if 0 < magnitude && 2 * magnitude ≤ wordCount then some (-magnitude) else none
    else if magnitude < wordCount then some magnitude
    else none
  else none

/-- Takes digits into a significand as long as it fits 64 bits; gives the significand and the number
of digits left. -/
def gather (significand : Nat) : List Nat → Nat × Nat
  | [] => (significand, 0)
  | d :: ds =>
    if 10 * significand + d < wordCount then gather (10 * significand + d) ds
    else (significand, (d :: ds).length)

/-- The largest exponent that is told apart. -/
def exponentBound : Nat := 0x7fffffff

/-- The power of ten with a given exponent. -/
def powerOfTen (k : Nat) : Float := Float.ofScientific 1 false k

/-- Divides by a power of ten, in steps that are powers of ten themselves. -/
def scaleDown (f : Float) (k : Nat) : Float :=
  if k ≤ 308 then f / powerOfTen k
  else if f == 0.0 then f
  else scaleDown (f / powerOfTen 308) (k - 308)
termination_by k

/-- A significand times a power of ten; `none` if it is too large to be finite. -/
def scaled? (significand : Nat) (e : Int) : Option Float :=
  let f := (UInt64.ofNat significand).toFloat
  if e < 0 then some (scaleDown f e.natAbs)
  else if 308 < e then if f == 0.0 then some f else none
  else
    let product := f * powerOfTen e.toNat
    if product.isInf then none else some product

/-- The magnitude of a numeral with a point, an exponent, or too many digits. -/
def magnitude? (n : Numeral) : Option Float :=
  let (significand, dropped) := gather 0 n.whole
  let (significand, left) := gather significand n.fraction
  let start : Int := dropped - (n.fraction.length - left : Nat)
  match n.exponent with
  | none => scaled? significand start
  | some (negative, digits) =>
    let e := ofDigits digits
    if exponentBound < e then
      if significand = 0 || negative then some 0.0 else none
    else
      let total := if negative then start - e else start + e
      scaled? significand (max (-(exponentBound : Int) - 1) (min exponentBound total))

/-- The floating-point number a numeral stands for. -/
def toFloat? (n : Numeral) : Option Float :=
  match n.toInt? with
  | some i =>
    let f := (UInt64.ofNat i.natAbs).toFloat
    some (if i < 0 then -f else f)
  | none => n.magnitude?.map fun f => if n.negative then -f else f

/-- The single-precision number a numeral stands for: whole numbers are rounded once, others by way
of double precision. -/
def toSingle? (n : Numeral) : Option Single :=
  match n.toInt? with
  | some i => some (.ofInt i)
  | none => n.toFloat?.map fun f => ⟨f.toFloat32.toBits⟩

end Numeral

end RoomScript.Json
