import RoomScript.Doc
import RoomScript.Notice
import RoomScript.Payload.Operands
import RoomScript.Script

/-!
# Listings

A listing shows the instructions of every entry point, from its address to the next greater one. An
instruction that begins before that address is listed whole. A listing that comes to something that
cannot be decoded says so.
-/

namespace RoomScript.Listing

/-- The listing of one entry point. -/
structure Entry where
  index : Nat
  address : Nat
  lines : List Script.Located
  /-- What kept the listing from going on. -/
  fault : Option Fault
  deriving DecidableEq, Repr

/-- The least of the addresses above a given one, or the end of the code. -/
def bound (script : Script) (address : Nat) : Nat :=
  (script.entries.filter (address < ·)).foldl min script.data.size

/-- The listing of the entry point at an address. The fault is that of the walk over the code, if
the walk got to it without an instruction at or beyond the bound. -/
def entryAt (script : Script) (index address : Nat) : Entry :=
  let sweep := script.sweep address
  let inside (l : Script.Located) : Bool := l.address < bound script address
  { index := index
    address := address
    lines := sweep.found.takeWhile inside
    -- A fault right at the bound is reported, since no instruction was seen beyond it.
    fault := if sweep.found.all inside then sweep.fault else none }

/-- The listings of all entry points, in the order of the table. -/
def ofScript (script : Script) : List Entry :=
  script.entries.zipIdx.map fun (address, index) => entryAt script index address

/-- What there is to say about listings. -/
def notices (entries : List Entry) : List Notice :=
  entries.filterMap fun e => e.fault.map (.listingFault e.index)

/-! ### Documents -/

/-- The operands that a listing shows of an instruction; none if they are not known. -/
def operands (l : Script.Located) : List String := (l.op.describe l.raw).getD []

/-- A listed instruction as a document; an instruction without operands has no such field. -/
def lineDoc (l : Script.Located) : Doc := .record (
  [("address", .int l.address), ("mnemonic", .text l.op.mnemonic), ("size", .int l.op.size),
    ("bytes", .text (Text.hexBytes l.raw.toList))] ++
  if (operands l).isEmpty then [] else [("operands", .list ((operands l).map .text))])

/-- The listing of an entry point as a document; one without a fault has no such field. -/
def Entry.toDoc (e : Entry) : Doc := .record (
  [("index", .int e.index), ("address", .int e.address), ("insts", .list (e.lines.map lineDoc))] ++
  match e.fault with
  | some fault => [("error", .text fault.message)]
  | none => [])

/-- Listings as a document. -/
def toDoc (entries : List Entry) : Doc := .list (entries.map Entry.toDoc)

end RoomScript.Listing
