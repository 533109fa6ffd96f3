import RoomScript.Fault
import RoomScript.Layout

/-!
# Scripts

A script is its code together with the addresses of its entry points. Addresses count bytes from the
start of the code, and the table of entry points is checked once, when the script is made: every
entry lies in the code. On disk a script starts with that table, words whose first one is also the
table's length.

**Main statements.** `Script.fetch_eq_ok_iff`: what an instruction fetch succeeds on.
`Script.sweep`: the instructions read one after another, which always comes to an end because no
instruction is empty.
-/

namespace RoomScript

/-- An entry point that lies outside the code. -/
structure EntryPastEnd where
  index : Nat
  address : Nat
  size : Nat
  deriving DecidableEq, Repr

/-- The wording of an entry point outside the code. -/
def EntryPastEnd.message (e : EntryPastEnd) : String :=
  s!"entry {e.index} points at 0x" ++ Text.hex e.address ++ ", past the end of the blob (0x" ++
    Text.hex e.size ++ ")"

/-- Why a blob is no script. -/
inductive LoadError
  /-- The blob has no room for the first word of its table. -/
  | blobTooShort (size : Nat)
  /-- The table has no entry, or half a word. -/
  | tableLength (length : Nat)
  /-- The table is longer than the blob. -/
  | tablePastEnd (length size : Nat)
  /-- An entry of the table lies outside the blob. -/
  | entry (cause : EntryPastEnd)
  deriving DecidableEq, Repr

/-- The wording of a load error, the outermost part first. -/
def LoadError.messages : LoadError → List String
  | .blobTooShort size => [s!"script blob is too short: {size} bytes"]
  | .tableLength length => [s!"invalid entry table length: {length}"]
  | .tablePastEnd length size =>
    [s!"entry table ({length} bytes) runs past the blob ({size} bytes)"]
  | .entry cause => ["while parsing the entry table", cause.message]

/-- A room script. -/
structure Script where
  /-- The code; on disk, the whole blob. -/
  data : Bytes
  /-- The addresses of the entry points. -/
  entries : List Nat
  /-- Every entry point lies in the code. -/
  entries_lt : ∀ e ∈ entries, e < data.size

namespace Script

/-- The first entry that is not below `size`, counted from `index`. -/
def firstPastEnd (size : Nat) : Nat → List Nat → Option EntryPastEnd
  | _, [] => none
  | index, e :: es => if e < size then firstPastEnd size (index + 1) es else some ⟨index, e, size⟩

theorem lt_of_firstPastEnd {size index : Nat} {es : List Nat}
    (h : firstPastEnd size index es = none) : ∀ e ∈ es, e < size := by
  induction es generalizing index with
  | nil => exact fun e he => nomatch he
  | cons e es ih =>
    unfold firstPastEnd at h
    split at h
    · next hlt =>
      intro x hx
      rcases List.mem_cons.mp hx with rfl | hx
      · exact hlt
      · exact ih h x hx
    · exact nomatch h

theorem firstPastEnd_eq_none {size : Nat} {es : List Nat} (h : ∀ e ∈ es, e < size) (index : Nat) :
    firstPastEnd size index es = none := by
  induction es generalizing index with
  | nil => rfl
  | cons e es ih =>
    rw [List.forall_mem_cons] at h
    rw [firstPastEnd, if_pos h.1]
    exact ih h.2 (index + 1)

/-- The script of given code and entry points. -/
def ofParts (data : Bytes) (entries : List Nat) : Except EntryPastEnd Script :=
  match h : firstPastEnd data.size 0 entries with
  | some e => .error e
  | none => .ok ⟨data, entries, lt_of_firstPastEnd h⟩

/-- **The parts of a script make a script if every entry point lies in the code**, and no other. -/
theorem ofParts_eq_ok_iff {data : Bytes} {entries : List Nat} {s : Script} :
    ofParts data entries = .ok s ↔ s.data = data ∧ s.entries = entries := by
  unfold ofParts
  constructor
  · intro h
    split at h
    · exact nomatch h
    · cases h
      exact ⟨rfl, rfl⟩
  · rintro ⟨rfl, rfl⟩
    split
    · next hpast =>
      rw [firstPastEnd_eq_none s.entries_lt] at hpast
      exact nomatch hpast
    · rfl

/-- The words of a table, low bytes first; an odd byte at the end is dropped. -/
def words : List UInt8 → List Nat
  | lo :: hi :: rest => (Layout.word lo hi).toNat :: words rest
  | _ => []

/-- The script stored in a blob. -/
def parse (blob : Bytes) : Except LoadError Script :=
  if h : 2 ≤ blob.size then
    let length := (Layout.word blob[0] blob[1]).toNat
    if length = 0 ∨ length % 2 ≠ 0 then .error (.tableLength length)
    else if blob.size < length then .error (.tablePastEnd length blob.size)
    else
      match ofParts blob (words (blob.toList.take length)) with
      | .error e => .error (.entry e)
      | .ok script => .ok script
  else .error (.blobTooShort blob.size)

/-- The address of an entry point. -/
def entry (s : Script) (index : Nat) : Except Fault Nat :=
  match s.entries[index]? with
  | some address => .ok address
  | none => .error (.unknownEntry index)

/-- The instruction at `pc`: its opcode and all its bytes, opcode byte included. -/
def fetch (s : Script) (pc : Nat) : Except Fault (Opcode × Bytes) :=
  match s.data[pc]? with
  | none => .error (.pcOutOfRange pc s.data.size)
  | some byte =>
    match Opcode.ofByte? byte with
    | none => .error (.unknownOpcode byte pc)
    | some op =>
      if pc + op.size ≤ s.data.size then .ok (op, s.data.extract pc (pc + op.size))
      else .error (.truncated op pc s.data.size)

/-- **What a fetch succeeds on**: an opcode byte followed by all the bytes its size asks for. -/
theorem fetch_eq_ok_iff {s : Script} {pc : Nat} {op : Opcode} {raw : Bytes} :
    s.fetch pc = .ok (op, raw) ↔
      s.data[pc]? = some op.toByte ∧ pc + op.size ≤ s.data.size ∧
        raw = s.data.extract pc (pc + op.size) := by
  unfold fetch
  constructor
  · intro h
    split at h
    · exact nomatch h
    · next byte hbyte =>
      split at h
      · exact nomatch h
      · next op' hop =>
        split at h
        · next hle =>
          cases h
          exact ⟨by rw [hbyte, Opcode.toByte_of_ofByte? hop], hle, rfl⟩
        · exact nomatch h
  · rintro ⟨hbyte, hle, rfl⟩
    simp [hbyte, hle]

/-- An instruction and where it was found. -/
structure Located where
  address : Nat
  op : Opcode
  raw : Bytes
  deriving DecidableEq, Repr

/-- What a walk over the code found: instructions, and the fault it ended on if it did not reach the
end of the code. -/
structure Sweep where
  found : List Located
  fault : Option Fault
  deriving DecidableEq, Repr

/-- The instructions from `start` on, one after another, up to the end of the code or the first
fault. -/
def sweep (s : Script) (start : Nat) : Sweep :=
  if start < s.data.size then
    match s.fetch start with
    | .error fault => ⟨[], some fault⟩
    | .ok (op, raw) =>
      let rest := sweep s (start + op.size)
      ⟨⟨start, op, raw⟩ :: rest.found, rest.fault⟩
  else ⟨[], none⟩
termination_by s.data.size - start
decreasing_by
  have := op.size_pos
  omega

end Script

end RoomScript
