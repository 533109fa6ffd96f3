/-!
# White space

The characters with the Unicode property `White_Space`, and the few text operations that trace
settings are read with.
-/

namespace RoomScript.Text

/-- The ranges of the Unicode property `White_Space`, in ascending order. -/
def blankRanges : List (Nat × Nat) :=
  [(0x09, 0x0d), (0x20, 0x20), (0x85, 0x85), (0xa0, 0xa0), (0x1680, 0x1680), (0x2000, 0x200a),
    (0x2028, 0x2029), (0x202f, 0x202f), (0x205f, 0x205f), (0x3000, 0x3000)]

/-- Whether a character is white space. -/
def isBlank (c : Char) : Bool := blankRanges.any fun (lo, hi) => lo ≤ c.toNat && c.toNat ≤ hi

/-- The text without white space at its ends. -/
def trim (cs : List Char) : List Char :=
  ((cs.dropWhile isBlank).reverse.dropWhile isBlank).reverse

/-- The text with the letters A to Z in lower case. -/
def lower (cs : List Char) : List Char := cs.map Char.toLower

/-- The pieces between the characters that divide. -/
def splitWhere (divides : Char → Bool) : List Char → List (List Char)
  | [] => [[]]
  | c :: cs =>
    if divides c then [] :: splitWhere divides cs
    else
      match splitWhere divides cs with
      | [] => [[c]]
      | piece :: rest => (c :: piece) :: rest

end RoomScript.Text
