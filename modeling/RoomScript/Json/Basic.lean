import RoomScript.Json.Number

/-!
# JSON values

A JSON value as its text has it: numerals and strings are kept as they were written, and an object
keeps its members in order with repetitions. What they mean depends on what is read from them.
-/

namespace RoomScript

/-- A JSON value. -/
inductive Json
  | null
  | bool (value : Bool)
  | number (numeral : Json.Numeral)
  /-- A string, given by the bytes between its quotes, escapes included. -/
  | string (raw : List UInt8)
  | array (items : List Json)
  /-- An object; names are given like strings. -/
  | object (members : List (List UInt8 × Json))

namespace Json

/-! ### Strings -/

/-- The character of a byte. -/
def charOf (b : UInt8) : Char := Char.ofNat b.toNat

/-- The value of a hexadecimal digit. -/
def hexValue? (b : UInt8) : Option Nat :=
  let n := b.toNat
  if 48 ≤ n && n ≤ 57 then some (n - 48)
  else if 65 ≤ n && n ≤ 70 then some (n - 55)
  else if 97 ≤ n && n ≤ 102 then some (n - 87)
  else none

/-- The value of four hexadecimal digits. -/
def hexFour? (a b c d : UInt8) : Option Nat := do
  let a ← hexValue? a
  let b ← hexValue? b
  let c ← hexValue? c
  let d ← hexValue? d
  return ((a * 16 + b) * 16 + c) * 16 + d

/-- The byte that a one-character escape stands for. -/
def shortEscape? (b : UInt8) : Option UInt8 :=
  match charOf b with
  | '"' => some 0x22
  | '\\' => some 0x5c
  | '/' => some 0x2f
  | 'b' => some 0x08
  | 'f' => some 0x0c
  | 'n' => some 0x0a
  | 'r' => some 0x0d
  | 't' => some 0x09
  | _ => none

/-- The bytes of a character. -/
def utf8 (code : Nat) : List UInt8 := (String.singleton (Char.ofNat code)).toUTF8.toList

/-- The bytes that a string stands for. A high surrogate has to be followed by a low one, and a low
one must not stand alone. -/
def unescape? : List UInt8 → Option (List UInt8)
  | [] => some []
  | 0x5c :: 0x75 :: a :: b :: c :: d :: rest => do
    let unit ← hexFour? a b c d
    if 0xdc00 ≤ unit && unit ≤ 0xdfff then none
    else if 0xd800 ≤ unit && unit ≤ 0xdbff then
      match rest with
      | 0x5c :: 0x75 :: a :: b :: c :: d :: rest =>
        let low ← hexFour? a b c d
        if 0xdc00 ≤ low && low ≤ 0xdfff then
          (unescape? rest).map (utf8 (0x10000 + (unit - 0xd800) * 0x400 + (low - 0xdc00)) ++ ·)
        else none
      | _ => none
    else (unescape? rest).map (utf8 unit ++ ·)
  | 0x5c :: e :: rest => do
    let b ← shortEscape? e
    (unescape? rest).map (b :: ·)
  | b :: rest => (unescape? rest).map (b :: ·)

/-- The text of a string, if it is one. -/
def text? (raw : List UInt8) : Option String := do
  let bytes ← unescape? raw
  String.fromUTF8? ⟨bytes.toArray⟩

end Json

end RoomScript
