/-!
# Tables

A table maps bytes to values and lists its rows in ascending order of their keys.

**Main statements.** `Table.get?_insert`: after an insertion the inserted key has its new value, and
every other key what it had.
-/

namespace RoomScript

/-- A table of values by byte, its rows in ascending order. -/
structure Table (α : Type) where
  rows : List (UInt8 × α) := []
  deriving DecidableEq, Repr

namespace Table

instance : Inhabited (Table α) := ⟨{}⟩

/-- The value of the first row with a given key. -/
def find? (k : UInt8) : List (UInt8 × α) → Option α
  | [] => none
  | (k', v) :: rest => if k = k' then some v else find? k rest

/-- Rows with the value of a key put in its place, over the value it may have had. -/
def insertRow (k : UInt8) (v : α) : List (UInt8 × α) → List (UInt8 × α)
  | [] => [(k, v)]
  | (k', v') :: rest =>
    if k < k' then (k, v) :: (k', v') :: rest
    else if k = k' then (k, v) :: rest
    else (k', v') :: insertRow k v rest

/-- The value of a key. -/
def get? (t : Table α) (k : UInt8) : Option α := find? k t.rows

/-- Sets the value of a key. -/
def insert (t : Table α) (k : UInt8) (v : α) : Table α := ⟨insertRow k v t.rows⟩

/-- Whether a key has a value. -/
def contains (t : Table α) (k : UInt8) : Bool := (t.get? k).isSome

/-- The table of given rows; of rows with the same key the last counts. -/
def ofList (rows : List (UInt8 × α)) : Table α := rows.foldl (fun t (k, v) => t.insert k v) {}

theorem find?_insertRow (k k' : UInt8) (v : α) (rows : List (UInt8 × α)) :
    find? k' (insertRow k v rows) = if k' = k then some v else find? k' rows := by
  induction rows with
  | nil => rfl
  | cons row rest ih =>
    obtain ⟨k₀, v₀⟩ := row
    unfold insertRow
    split
    · rfl
    · split
      · next h =>
        subst h
        simp only [find?]
        split <;> rfl
      · next h =>
        simp only [find?, ih]
        split
        · next h' =>
          subst h'
          rw [if_neg fun e => h e.symm]
        · rfl

theorem get?_insert (t : Table α) (k k' : UInt8) (v : α) :
    (t.insert k v).get? k' = if k' = k then some v else t.get? k' :=
  find?_insertRow k k' v t.rows

@[simp] theorem get?_empty (k : UInt8) : ({} : Table α).get? k = none := rfl

end Table

end RoomScript
