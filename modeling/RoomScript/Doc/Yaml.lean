import RoomScript.Doc

/-!
# Documents in YAML

Block style: a field or row on each line, what it holds two columns further in, and lists at the
column of the field that holds them. A list or a record that is itself an item of a list starts on
the line of its dash. Empty lists are written `[]` and empty tables `{}`. Texts are plain unless
they would be read as something else, and then stand in single quotes.
-/

namespace RoomScript.Doc.Yaml

/-- Whether a text holds a colon followed by a blank, which would end a field's name. -/
def hasFieldMark : List Char → Bool
  | ':' :: ' ' :: _ => true
  | _ :: rest => hasFieldMark rest
  | [] => false

/-- Whether a text has to be quoted: it would be read as nothing, as a number, or as a field. -/
def needsQuotes (s : String) : Bool :=
  let cs := s.toList
  cs.all Char.isDigit || hasFieldMark cs

/-- A text between single quotes, the quotes in it doubled. -/
def quoted (s : String) : String :=
  let inner := s.toList.flatMap fun c => if c = '\'' then ['\'', '\''] else [c]
  String.ofList ('\'' :: inner ++ ['\''])

/-- A text as it is written. -/
def scalar (s : String) : String := if needsQuotes s then quoted s else s

/-- `n` columns of indent. -/
def indent (n : Nat) : String := String.ofList (List.replicate n ' ')

/-- What is written of a document on the line it starts on, if it fits there. -/
def inline? : Doc → Option String
  | .null => some "null"
  | .bool value => some (if value then "true" else "false")
  | .int value => some (toString value)
  | .single value => some value.text
  | .text value => some (scalar value)
  | .list [] => some "[]"
  | .record [] => some "\x7b\x7d"
  | .table [] => some "\x7b\x7d"
  | _ => none

/-- Puts the indent before the first of some lines; the others have theirs. -/
def below (column : Nat) : List String → List String
  | [] => []
  | first :: others => (indent column ++ first) :: others

mutual

/-- The lines of a document that starts at a column, without the indent of its first line. -/
def lines (column : Nat) (d : Doc) : List String :=
  match d with
  | .list (item :: items) => itemLines column (item :: items)
  | .record (field :: fields) => fieldLines column (field :: fields)
  | .table (row :: rows) => rowLines column (row :: rows)
  | .variant name content => held column ("!" ++ name) content
  | d => [(inline? d).getD ""]

/-- The lines of a document behind a mark that holds it: on the line of the mark if it fits there,
and else below it, records and tables two columns further in. -/
def held (column : Nat) (mark : String) (d : Doc) : List String :=
  match d with
  | .list (item :: items) => mark :: below column (itemLines column (item :: items))
  | .record (field :: fields) =>
    mark :: below (column + 2) (fieldLines (column + 2) (field :: fields))
  | .table (row :: rows) => mark :: below (column + 2) (rowLines (column + 2) (row :: rows))
  | .variant name content => held column (mark ++ " !" ++ name) content
  | d => [mark ++ " " ++ (inline? d).getD ""]

/-- The lines of the items of a list. -/
def itemLines (column : Nat) (items : List Doc) : List String :=
  match items with
  | [] => []
  | item :: rest =>
    let own :=
      match lines (column + 2) item with
      | first :: others => ("- " ++ first) :: others
      | [] => ["-"]
    own ++ below column (itemLines column rest)

/-- The lines of the fields of a record. -/
def fieldLines (column : Nat) (fields : List (String × Doc)) : List String :=
  match fields with
  | [] => []
  | (name, d) :: rest => held column (name ++ ":") d ++ below column (fieldLines column rest)

/-- The lines of the rows of a table. -/
def rowLines (column : Nat) (rows : List (Nat × Doc)) : List String :=
  match rows with
  | [] => []
  | (key, d) :: rest => held column (toString key ++ ":") d ++ below column (rowLines column rest)

end

/-- A document as YAML text. -/
def render (d : Doc) : String := String.join ((lines 0 d).map (· ++ "\n"))

end RoomScript.Doc.Yaml
