import RoomScript.Doc
import RoomScript.Json.Basic
import RoomScript.Table

/-!
# Serialised forms

A `Form` is how a type appears in a document and how it is read from JSON. The form of a record is
put together from its fields with the applicative operators, each field given once by its name, how
to get it, and its own form, so writing and reading cannot disagree about names or order.

Reading a record follows these rules. An object may hold other members, which are passed over, but
none of the record's fields twice. An array gives the fields in order and may not be longer than
they are. Whether a field may be missing is the field's own affair.
-/

namespace RoomScript

/-- How a type is written and read. -/
structure Form (α : Type) where
  toDoc : α → Doc
  ofJson? : Json → Option α

/-- Some fields of a record `σ`, which together make an `α`. -/
structure Fields (σ α : Type) where
  write : σ → List (String × Doc)
  names : List String
  read : (String → Option Json) → Option α

namespace Fields

instance : Functor (Fields σ) where
  map f fs := ⟨fs.write, fs.names, fun get => (fs.read get).map f⟩

instance : Applicative (Fields σ) where
  pure a := ⟨fun _ => [], [], fun _ => some a⟩
  seq fs gs := ⟨fun s => fs.write s ++ (gs ()).write s, fs.names ++ (gs ()).names, fun get => do
    let f ← fs.read get
    let a ← (gs ()).read get
    return f a⟩

/-- A field that has to be there. -/
def one (name : String) (get : σ → β) (form : Form β) : Fields σ β :=
  ⟨fun s => [(name, form.toDoc (get s))], [name], fun member => (member name).bind form.ofJson?⟩

/-- A field that has a value when it is missing. -/
def orElse (name : String) (get : σ → β) (form : Form β) (missing : β) : Fields σ β :=
  ⟨fun s => [(name, form.toDoc (get s))], [name], fun member =>
    match member name with
    | some json => form.ofJson? json
    | none => some missing⟩

end Fields

namespace Form

/-! ### Numbers -/

/-- A whole number that a type holds, given how it is converted both ways and its bounds. -/
def whole (toInt : α → Int) (ofInt : Int → α) (least most : Int) : Form α where
  toDoc a := .int (toInt a)
  ofJson?
    | .number numeral => do
      let i ← numeral.toInt?
      if least ≤ i && i ≤ most then some (ofInt i) else none
    | _ => none

/-- An unsigned byte. -/
def u8 : Form UInt8 := whole (·.toNat) (.ofNat ·.toNat) 0 255

/-- A signed byte. -/
def i8 : Form Int8 := whole (·.toInt) .ofInt (-128) 127

/-- An unsigned word. -/
def u16 : Form UInt16 := whole (·.toNat) (.ofNat ·.toNat) 0 65535

/-- A signed word. -/
def i16 : Form Int16 := whole (·.toInt) .ofInt (-32768) 32767

/-- An unsigned double word. -/
def u32 : Form UInt32 := whole (·.toNat) (.ofNat ·.toNat) 0 0xffffffff

/-- A signed double word. -/
def i32 : Form Int32 := whole (·.toInt) .ofInt (-0x80000000) 0x7fffffff

/-- A count or an address, of 64 bits. -/
def size : Form Nat := whole Int.ofNat Int.toNat 0 0xffffffffffffffff

/-- A single-precision number. -/
def single : Form Single where
  toDoc := .single
  ofJson?
    | .number numeral => numeral.toSingle?
    | _ => none

/-! ### Collections -/

/-- A list of any length. -/
def array (form : Form α) : Form (Array α) where
  toDoc xs := .list (xs.toList.map form.toDoc)
  ofJson?
    | .array items => (items.mapM form.ofJson?).map List.toArray
    | _ => none

/-- A list of a fixed length. -/
def vector (n : Nat) (form : Form α) : Form (Vector α n) where
  toDoc xs := .list (xs.toList.map form.toDoc)
  ofJson?
    | .array items => do
      let xs := (← items.mapM form.ofJson?).toArray
      if h : xs.size = n then some ⟨xs, h⟩ else none
    | _ => none

/-- A key of a table: a byte in decimal, without escapes, signs or leading zeros. -/
def key? (raw : List UInt8) : Option UInt8 :=
  (List.range 256).findSome? fun n =>
    if raw = (toString n).toUTF8.toList then some (UInt8.ofNat n) else none

/-- A table by byte. Of members with the same key the last counts. -/
def table (form : Form α) : Form (Table α) where
  toDoc t := .table (t.rows.map fun (k, v) => (k.toNat, form.toDoc v))
  ofJson?
    | .object members => do
      let rows ← members.mapM fun (raw, json) => do
        let k ← key? raw
        let v ← form.ofJson? json
        return (k, v)
      return Table.ofList rows
    | _ => none

/-! ### Records and variants -/

/-- The members of an object with their names as texts. -/
def namedMembers? (members : List (List UInt8 × Json)) : Option (List (String × Json)) :=
  members.mapM fun (raw, json) => (Json.text? raw).map (·, json)

/-- Whether every name occurs at most once among members. -/
def noneTwice (names : List String) (members : List (String × Json)) : Bool :=
  names.all fun name => (members.filter (·.1 == name)).length ≤ 1

/-- A record. -/
def record (fs : Fields α α) : Form α where
  toDoc a := .record (fs.write a)
  ofJson?
    | .object members => do
      let members ← namedMembers? members
      if noneTwice fs.names members then fs.read (members.lookup ·) else none
    | .array items =>
      if items.length ≤ fs.names.length then fs.read ((fs.names.zip items).lookup ·) else none
    | _ => none

/-- The name of a variant and what it holds: a string alone holds nothing. -/
def variant? : Json → Option (String × Option Json)
  | .string raw => (Json.text? raw).map (·, none)
  | .object [(raw, json)] => (Json.text? raw).map (·, some json)
  | _ => none

/-- A choice among names, written as a text. -/
def choice (name : α → String) (ofName? : String → Option α) : Form α where
  toDoc a := .text (name a)
  ofJson? json := do
    match ← variant? json with
    | (name, none) | (name, some .null) => ofName? name
    | _ => none

end Form

end RoomScript
