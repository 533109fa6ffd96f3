import RoomScript.Decimal.Shortest

/-!
# Single-precision numbers

Positions and angles are single-precision floating-point numbers, kept as their 32 bits: one sign
bit, eight of exponent, 23 of fraction. Numbers come in by rounding `m * 2 ^ e` to the nearest
single, ties to the even one.
-/

namespace RoomScript

/-- A single-precision number. -/
structure Single where
  bits : UInt32 := 0
  deriving DecidableEq, Repr, Inhabited

namespace Single

/-- `m / 2 ^ k` rounded to the nearest natural number, a tie to the even one. -/
def halfEven (m k : Nat) : Nat :=
  let quotient := m >>> k
  let twice := 2 * (m - quotient <<< k)
  if twice < 1 <<< k then quotient
  else if 1 <<< k < twice then quotient + 1
  else quotient + quotient % 2

/-- The sign bit. -/
def signBit : Nat := 0x80000000

/-- The bits of infinity. -/
def infinity : Nat := 0x7f800000

/-- The single nearest to `m * 2 ^ e`, with a sign. A number whose leading bit stands at the place
`b` has steps of `2 ^ (b - 23)`, but never finer than `2 ^ -149`; a carry out of the fraction moves
the exponent up by itself. -/
def round (negative : Bool) (m : Nat) (e : Int) : Single :=
  let sign := if negative then signBit else 0
  if m = 0 then ⟨UInt32.ofNat sign⟩
  else
    -- The place of the leading bit decides how fine the steps are.
    let leading : Int := m.log2 + e
    let step := max (leading - 23) (-149)
    let fraction := if step ≤ e then m <<< (e - step).toNat else halfEven m (step - e).toNat
    let magnitude := (step + 149).toNat * 0x800000 + fraction
    ⟨UInt32.ofNat (sign + min magnitude infinity)⟩

/-- The single nearest to a whole number. -/
def ofInt (n : Int) : Single := round (n < 0) n.natAbs 0

/-- The angle in degrees of a rotation in steps of which 4096 make a turn; `360 / 4096` is
`45 / 2 ^ 9`. -/
def ofTurn (v : Int16) : Single := round (v < 0) (v.toInt.natAbs * 45) (-9)

/-! ### Text -/

/-- Whether the sign is negative. -/
def isNegative (x : Single) : Bool := signBit ≤ x.bits.toNat

/-- The number without its sign. -/
def magnitude (x : Single) : Nat := x.bits.toNat % signBit

/-- Whether a number is neither infinite nor no number at all. -/
def isFinite (x : Single) : Bool := x.magnitude < infinity

/-- The value of a finite number, its sign apart. -/
def toBinary (x : Single) : Decimal.Binary :=
  let exponent := x.magnitude / 0x800000
  let fraction := x.magnitude % 0x800000
  if exponent = 0 then ⟨fraction, -149, false⟩
  else ⟨0x800000 + fraction, exponent - 150, fraction = 0 && 1 < exponent⟩

/-- The digits of a decimal with the point put in: positional up to thirteen places before the point
and down to five zeros behind it, with an exponent otherwise. There is always a digit on either side
of a point. -/
def layout (d : Decimal) : String :=
  let digits := Nat.toDigits 10 d.digits
  let point := digits.length + d.exponent
  if 0 ≤ d.exponent && point ≤ 13 then
    String.ofList (digits ++ List.replicate d.exponent.toNat '0') ++ ".0"
  else if 0 < point && point ≤ 13 then
    String.ofList (digits.take point.toNat) ++ "." ++ String.ofList (digits.drop point.toNat)
  else if -5 ≤ point && point ≤ 0 then
    "0." ++ String.ofList (List.replicate (-point).toNat '0' ++ digits)
  else
    let tail := if digits.length = 1 then "" else "." ++ String.ofList (digits.drop 1)
    String.ofList (digits.take 1) ++ tail ++ s!"e{point - 1}"

/-- A number as text: the fewest digits that read back. -/
def text (x : Single) : String :=
  let sign := if x.isNegative then "-" else ""
  if infinity < x.magnitude then ".nan"
  else if x.magnitude = infinity then sign ++ ".inf"
  else if x.magnitude = 0 then sign ++ "0.0"
  else
    let d := x.toBinary.shortest
    sign ++ layout d

end Single

end RoomScript
