import RoomScript.Json.Basic

/-!
# Reading JSON texts

A recursive-descent reader over bytes. Every call that goes deeper or further uses up one unit of
fuel, and each of them is preceded by a byte that was read, so the length of the text is fuel
enough.
-/

namespace RoomScript.Json

/-- The bytes that may stand between tokens. -/
def isSpace (b : UInt8) : Bool := b = 0x20 || b = 0x0a || b = 0x0d || b = 0x09

/-- Drops what may stand between tokens. -/
def skip (cs : List UInt8) : List UInt8 := cs.dropWhile isSpace

/-- Whether a byte is a decimal digit. -/
def isDigit (b : UInt8) : Bool := 0x30 ≤ b && b ≤ 0x39

/-- The leading digits and what follows them. -/
def digits (cs : List UInt8) : List Nat × List UInt8 :=
  ((cs.takeWhile isDigit).map (·.toNat - 48), cs.dropWhile isDigit)

/-- The exponent of a numeral, if there is one. -/
def exponent? (cs : List UInt8) : Option (Option (Bool × List Nat) × List UInt8) :=
  match cs with
  | e :: rest =>
    if e = 0x65 || e = 0x45 then
      let (negative, rest) :=
        match rest with
        | 0x2b :: rest => (false, rest)
        | 0x2d :: rest => (true, rest)
        | rest => (false, rest)
      match digits rest with
      | ([], _) => none
      | (ds, rest) => some (some (negative, ds), rest)
    else some (none, cs)
  | [] => some (none, [])

/-- The part of a numeral behind its point, if there is one. -/
def fraction? (cs : List UInt8) : Option (List Nat × List UInt8) :=
  match cs with
  | 0x2e :: rest =>
    match digits rest with
    | ([], _) => none
    | found => some found
  | _ => some ([], cs)

/-- A numeral. A leading zero stands alone before the point. -/
def numeral? (cs : List UInt8) : Option (Numeral × List UInt8) := do
  let (negative, cs) :=
    match cs with
    | 0x2d :: rest => (true, rest)
    | _ => (false, cs)
  let (whole, cs) := digits cs
  match whole with
  | [] => none
  | 0 :: _ :: _ => none
  | whole =>
    let (fraction, cs) ← fraction? cs
    let (exponent, cs) ← exponent? cs
    return (⟨negative, whole, fraction, exponent⟩, cs)

/-- The rest of a string, up to its closing quote. Escapes are checked for their form only. -/
def stringTail? : List UInt8 → Option (List UInt8 × List UInt8)
  | [] => none
  | 0x22 :: rest => some ([], rest)
  | 0x5c :: 0x75 :: a :: b :: c :: d :: rest => do
    let _ ← hexFour? a b c d
    let (raw, rest) ← stringTail? rest
    return (0x5c :: 0x75 :: a :: b :: c :: d :: raw, rest)
  | 0x5c :: e :: rest => do
    let _ ← shortEscape? e
    let (raw, rest) ← stringTail? rest
    return (0x5c :: e :: raw, rest)
  | b :: rest =>
    if b < 0x20 || b = 0x5c then none
    else do
      let (raw, rest) ← stringTail? rest
      return (b :: raw, rest)

/-- What follows a given word. -/
def word? (word : String) (cs : List UInt8) : Option (List UInt8) :=
  let bytes := word.toUTF8.toList
  if bytes.isPrefixOf cs then some (cs.drop bytes.length) else none

mutual

/-- A value and what follows it. -/
def value? : Nat → List UInt8 → Option (Json × List UInt8)
  | 0, _ => none
  | fuel + 1, cs =>
    match skip cs with
    | [] => none
    | c :: rest =>
      match charOf c with
      | 'n' => (word? "ull" rest).map (Json.null, ·)
      | 't' => (word? "rue" rest).map (Json.bool true, ·)
      | 'f' => (word? "alse" rest).map (Json.bool false, ·)
      | '"' => (stringTail? rest).map fun (raw, rest) => (.string raw, rest)
      | '[' =>
        match skip rest with
        | 0x5d :: rest => some (.array [], rest)
        | rest => (elements? fuel rest).map fun (items, rest) => (.array items, rest)
      | '\x7b' =>
        match skip rest with
        | 0x7d :: rest => some (.object [], rest)
        | rest => (members? fuel rest).map fun (members, rest) => (.object members, rest)
      | _ => (numeral? (c :: rest)).map fun (n, rest) => (.number n, rest)

/-- The elements of an array that is not empty, up to its end. -/
def elements? : Nat → List UInt8 → Option (List Json × List UInt8)
  | 0, _ => none
  | fuel + 1, cs => do
    let (item, cs) ← value? fuel cs
    match skip cs with
    | 0x2c :: rest =>
      let (items, rest) ← elements? fuel rest
      return (item :: items, rest)
    | 0x5d :: rest => return ([item], rest)
    | _ => none

/-- The members of an object that is not empty, up to its end. -/
def members? : Nat → List UInt8 → Option (List (List UInt8 × Json) × List UInt8)
  | 0, _ => none
  | fuel + 1, cs => do
    match skip cs with
    | 0x22 :: rest =>
      let (name, rest) ← stringTail? rest
      match skip rest with
      | 0x3a :: rest =>
        let (item, cs) ← value? fuel rest
        match skip cs with
        | 0x2c :: rest =>
          let (members, rest) ← members? fuel rest
          return ((name, item) :: members, rest)
        | 0x7d :: rest => return ([(name, item)], rest)
        | _ => none
      | _ => none
    | _ => none

end

/-- The value of a whole text. -/
def parse? (bytes : List UInt8) : Option Json :=
  match value? (2 * bytes.length + 2) bytes with
  | some (json, rest) => if (skip rest).isEmpty then some json else none
  | none => none

end RoomScript.Json
