import RoomScript.Single

/-!
# Documents

Reports and listings are documents: numbers, texts, lists, records with named fields in order,
tables with numbered rows, and values marked with the name of a variant. How a document is written
down is a separate matter; `Doc.Yaml` is one way.
-/

namespace RoomScript

/-- A document. -/
inductive Doc
  | null
  | bool (value : Bool)
  | int (value : Int)
  | single (value : Single)
  | text (value : String)
  | list (items : List Doc)
  | record (fields : List (String × Doc))
  | table (rows : List (Nat × Doc))
  | variant (name : String) (content : Doc)
  deriving Inhabited

end RoomScript
