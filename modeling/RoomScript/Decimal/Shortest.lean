/-!
# The fewest digits that read back

A binary number `m * 2 ^ q` stands for all reals that round to it: those within half a step on
either side, the ends belonging to it exactly when `m` is even. Of the decimals among them the
printed one has the fewest digits, and of those it is the nearest to the number itself.

The search tries one digit, then two, and so on; on each decimal grid only the two neighbours of the
number can be the nearest grid point that still reads back. All comparisons are made between natural
numbers.
-/

namespace RoomScript

/-- A decimal `digits * 10 ^ exponent`. -/
structure Decimal where
  digits : Nat
  exponent : Int
  deriving DecidableEq, Repr

namespace Decimal

/-- A binary number `significand * 2 ^ exponent`. -/
structure Binary where
  significand : Nat
  exponent : Int
  /-- The step below is half the step above, as it is at a power of two. -/
  narrowBelow : Bool := false
  deriving DecidableEq, Repr

namespace Binary

/-- The factor that `b` has over the grid `10 ^ p`, as numerator and denominator: `b` is
`significand * up / down` grid steps. -/
def scale (b : Binary) (p : Int) : Nat × Nat :=
  (Nat.pow 2 b.exponent.toNat * Nat.pow 10 (-p).toNat,
    Nat.pow 2 (-b.exponent).toNat * Nat.pow 10 p.toNat)

/-- Whether `c * 10 ^ p` rounds to `b`. -/
def readsBack (b : Binary) (p : Int) (c : Nat) : Bool :=
  let (up, down) := b.scale p
  let lower := (4 * b.significand - if b.narrowBelow then 1 else 2) * up
  let upper := (4 * b.significand + 2) * up
  let x := 4 * c * down
  if b.significand % 2 = 0 then lower ≤ x && x ≤ upper else lower < x && x < upper

/-- The nearest grid point of `10 ^ p` that rounds to `b`, if there is one. A tie goes to the even
neighbour. -/
def onGrid? (b : Binary) (p : Int) : Option Nat :=
  let (up, down) := b.scale p
  let below := b.significand * up / down
  let gapBelow := b.significand * up - below * down
  let gapAbove := (below + 1) * down - b.significand * up
  match b.readsBack p below, b.readsBack p (below + 1) with
  | true, true =>
    if gapBelow < gapAbove then some below
    else if gapAbove < gapBelow then some (below + 1)
    else some (if below % 2 = 0 then below else below + 1)
  | true, false => some below
  | false, true => some (below + 1)
  | false, false => none

/-- Whether `b` is at least `10 ^ p`. -/
def atLeastPower (b : Binary) (p : Int) : Bool :=
  let (up, down) := b.scale p
  down ≤ b.significand * up

/-- The exponent of the leading digit, searched for downwards from `top`. -/
def leading (b : Binary) (top : Int) : Nat → Int
  | 0 => top
  | tries + 1 => if b.atLeastPower top then top else leading b (top - 1) tries

/-- The decimal that a grid from `10 ^ p` downwards gives first. Only a carry into a new leading
place leaves a zero at its end, and it is dropped. -/
def search (b : Binary) (p : Int) : Nat → Decimal
  | 0 => ⟨b.significand, 0⟩
  | tries + 1 =>
    match b.onGrid? p with
    | some c => if c % 10 = 0 then ⟨c / 10, p + 1⟩ else ⟨c, p⟩
    | none => search b (p - 1) tries

/-- The shortest decimal that reads back as a single-precision `b` other than zero. Nine digits
always suffice, and the leading digit stands between the places 38 and -46. -/
def shortest (b : Binary) : Decimal := b.search (b.leading 38 90) 12

end Binary

end Decimal

end RoomScript
