import RoomScript.Listing
import RoomScript.Proofs.Blob
import RoomScript.Proofs.Sweeping

/-!
# What a listing shows

The listing of an entry point is a piece of a sweep: the instructions from its address on, as long
as they begin before the next greater entry point. Entry points may stand in any order, more than
once, and in the middle of one another's instructions, so a listing may run over the bytes of
another one, or begin inside one of its instructions. What is never lost is a byte: if no listing
came to a fault, each of them reaches the place where the next one begins. `Listing.Shows` is what
can be read off a line of a listing as it is written down.

The fault of a listing is another matter. The walk over the code looks one instruction ahead before
it finds out that it has left the part it was to list, and if that instruction cannot be decoded the
listing takes the fault for its own. `Script.Reaches` says which addresses a walk comes to, and
`Script.Overruns` which of them is the first one that does not belong to the listing any more.

**Main statements.** `Script.fault_of_sweep_iff`: the fault of a sweep is that of the address it
comes to and cannot go on from. `Listing.faults_inside_iff_decodes_behind`: a listing shows faults
of its own part and no others exactly if the walk can be gone on with behind it.
`Listing.every_byte_listed`: listings are contiguous, and together they leave out no byte.
-/

namespace RoomScript

/-- The field of a record by its name. -/
def Doc.field? (name : String) : Doc → Option Doc
  | .record fields => fields.lookup name
  | _ => none

namespace Script

/-! ### The addresses a walk comes to -/

/-- **The addresses that a walk over the code comes to**: where it starts, and whatever stands right
behind an instruction that it could fetch. -/
inductive Reaches (s : Script) : Nat → Nat → Prop
  | here {a} : Reaches s a a
  | step {a b op raw} (hf : s.fetch a = .ok (op, raw)) (h : Reaches s (a + op.size) b) :
    Reaches s a b

/-- The first address at or behind a place that a walk comes to. -/
structure Overruns (s : Script) (start stop a : Nat) : Prop where
  reached : s.Reaches start a
  behind : stop ≤ a
  first : ∀ b, s.Reaches start b → b < a → b < stop

variable {s : Script} {start a b : Nat} {f : Fault}

theorem Reaches.le (h : s.Reaches start a) : start ≤ a := by
  induction h with
  | here => exact Nat.le_refl _
  | step _ _ ih => exact Nat.le_trans (Nat.le_add_right _ _) ih

/-- **What a sweep has found when it comes to an address**: from there on it is a sweep that starts
at that address. -/
theorem Reaches.sweep (h : s.Reaches start a) :
    ∃ front, (s.sweep start).found = front ++ (s.sweep a).found ∧ a = start + span front ∧
      (s.sweep start).fault = (s.sweep a).fault := by
  induction h with
  | here => exact ⟨[], rfl, rfl, rfl⟩
  | @step c b op raw hf _ ih =>
    obtain ⟨front, hfound, hb, hfault⟩ := ih
    rw [sweep_of_fetch hf]
    refine ⟨⟨c, op, raw⟩ :: front, ?_, ?_, hfault⟩
    · rw [List.cons_append, hfound]
    · rw [span_cons, ← Nat.add_assoc]
      exact hb

/-- The first instruction that a sweep finds is fetched where it starts, and the others are found by
a sweep from behind it. -/
theorem sweep_cons {l : Located} {ls : List Located} (h : (s.sweep start).found = l :: ls) :
    l.address = start ∧ s.fetch start = .ok (l.op, l.raw) ∧
      (s.sweep (start + l.op.size)).found = ls := by
  have hfront : (s.sweep start).found = [] ++ l :: ls := h
  have haddress : l.address = start := s.address_of_sweep start hfront
  have hfetch := s.fetch_of_sweep start l (by rw [h]; exact List.mem_cons_self)
  rw [haddress] at hfetch
  rw [sweep_of_fetch hfetch] at h
  exact ⟨haddress, hfetch, (List.cons.inj h).2⟩

/-- A sweep comes to the end of everything it has found up to some point. -/
theorem reaches_of_sweep {front back : List Located} (h : (s.sweep start).found = front ++ back) :
    s.Reaches start (start + span front) := by
  induction front generalizing start with
  | nil => exact .here
  | cons l front ih =>
    obtain ⟨-, hfetch, hrest⟩ := sweep_cons h
    rw [span_cons, ← Nat.add_assoc]
    exact .step hfetch (ih hrest)

/-- **The fault of a sweep** is that of the address it comes to and cannot go on from. -/
theorem fault_of_sweep_iff :
    (s.sweep start).fault = some f ↔
      ∃ a, s.Reaches start a ∧ a < s.data.size ∧ s.fetch a = .error f := by
  constructor
  · intro hfault
    have hend := s.end_of_sweep start
    rw [hfault] at hend
    exact ⟨_, reaches_of_sweep (List.append_nil _).symm, hend.1, hend.2⟩
  · rintro ⟨a, hreach, ha, hf⟩
    obtain ⟨front, -, -, hfault⟩ := hreach.sweep
    rw [hfault, sweep_of_fault ha hf]

/-- A walk that cannot go on has come to its last address. -/
theorem Reaches.le_of_fault (ha : s.Reaches start a) (hf : s.fetch a = .error f)
    (hb : s.Reaches start b) : b ≤ a := by
  -- the two go the same way as long as both go on, and the first one ends at the fault
  induction ha with
  | here =>
    cases hb with
    | here => exact Nat.le_refl _
    | step hf' _ =>
      rw [hf] at hf'
      exact nomatch hf'
  | step hf' ha ih =>
    cases hb with
    | here => exact Nat.le_trans (Nat.le_add_right _ _) ha.le
    | step hf'' hb =>
      rw [hf'] at hf''
      cases hf''
      exact ih hf hb

/-- Behind an address that is passed over there is another instruction. -/
theorem Reaches.fetch_of_lt (ha : s.Reaches start a) (hb : s.Reaches start b) (hlt : b < a) :
    ∃ op raw, s.fetch b = .ok (op, raw) := by
  cases hf : s.fetch b with
  | ok fetched => exact ⟨fetched.1, fetched.2, rfl⟩
  | error f => exact absurd (hb.le_of_fault hf ha) (Nat.not_le_of_lt hlt)

end Script

namespace Listing

open Script (Located span Reaches Overruns)

/-! ### Where a listing ends -/

/-- **The place where the listing of an address ends**: the smallest entry point above it, or the
end of the code if there is none. -/
def NextStop (script : Script) (address stop : Nat) : Prop :=
  (stop ∈ script.entries ∧ address < stop ∧ ∀ e ∈ script.entries, address < e → stop ≤ e) ∨
    ((∀ e ∈ script.entries, e ≤ address) ∧ stop = script.data.size)

theorem nextStop_bound (script : Script) (address : Nat) :
    NextStop script address (bound script address) := by
  -- the bound is the least of the end of the code and the entry points above the address
  have hmin : (script.data.size :: script.entries.filter (address < ·)).min? =
      some (bound script address) := List.min?_cons'
  obtain ⟨hmem, hall⟩ := List.min?_eq_some_iff.mp hmin
  have hleast : ∀ e ∈ script.entries, address < e → bound script address ≤ e := by
    intro e he hlt
    exact hall e (List.mem_cons_of_mem _ (List.mem_filter.mpr ⟨he, decide_eq_true hlt⟩))
  by_cases hnone : ∀ e ∈ script.entries, e ≤ address
  · -- nothing is left of the table, so the code is listed to its end
    have hnil : script.entries.filter (address < ·) = [] :=
      List.filter_eq_nil_iff.mpr fun e he => by simpa using hnone e he
    exact .inr ⟨hnone, by rw [bound, hnil]; rfl⟩
  · obtain ⟨e, he, hlt⟩ : ∃ e ∈ script.entries, address < e := by simpa using hnone
    rcases List.mem_cons.mp hmem with hsize | hmem
    · -- the end of the code is behind every entry point
      have hle := hleast e he hlt
      rw [hsize] at hle
      exact absurd hle (Nat.not_le_of_lt (script.entries_lt e he))
    · obtain ⟨hmem, hlt⟩ := List.mem_filter.mp hmem
      exact .inl ⟨hmem, of_decide_eq_true hlt, hleast⟩

namespace NextStop

variable {script : Script} {address stop : Nat}

theorem le_size (h : NextStop script address stop) : stop ≤ script.data.size := by
  rcases h with ⟨hmem, -⟩ | ⟨-, rfl⟩
  · exact Nat.le_of_lt (script.entries_lt stop hmem)
  · exact Nat.le_refl _

end NextStop

/-! ### The listing of one entry point -/

section Entries

variable (script : Script) (index address : Nat)

/-- There is one listing for each entry of the table, in the order of the table. -/
theorem getElem?_ofScript (i : Fin script.entries.length) :
    (ofScript script)[i.val]? = some (entryAt script i (script.entries.get i)) := by
  rw [ofScript, List.getElem?_map, List.getElem?_zipIdx, List.getElem?_eq_getElem i.isLt]
  simp

/-- The fault of a listing is that of the sweep, unless the sweep has found an instruction that is
not listed. -/
theorem fault_entryAt :
    (entryAt script index address).fault =
      if ∀ l ∈ (script.sweep address).found, l.address < bound script address then
        (script.sweep address).fault
      else none := by
  simp only [entryAt, List.all_eq_true, decide_eq_true_eq]

/-- **The fault of a listing**: the walk comes to an address that cannot be decoded, and everything
it has come to before begins below the end. -/
theorem fault_entryAt_iff {f : Fault} :
    (entryAt script index address).fault = some f ↔
      ∃ a, script.Reaches address a ∧ a < script.data.size ∧ script.fetch a = .error f ∧
        ∀ b, script.Reaches address b → b < a → b < bound script address := by
  have hfault : (entryAt script index address).fault = some f ↔
      (∀ l ∈ (script.sweep address).found, l.address < bound script address) ∧
        (script.sweep address).fault = some f := by
    rw [fault_entryAt]
    split
    · next h => exact ⟨fun hf => ⟨h, hf⟩, And.right⟩
    · next h => exact ⟨nofun, fun hf => absurd hf.1 h⟩
  rw [hfault]
  constructor
  · rintro ⟨hinside, hf⟩
    obtain ⟨a, hreach, ha, hfetch⟩ := Script.fault_of_sweep_iff.mp hf
    refine ⟨a, hreach, ha, hfetch, ?_⟩
    -- what is passed over is found
    intro b hb hlt
    obtain ⟨op, raw, hop⟩ := hreach.fetch_of_lt hb hlt
    obtain ⟨front, hfound, -⟩ := hb.sweep
    refine hinside ⟨b, op, raw⟩ ?_
    rw [hfound, Script.sweep_of_fetch hop]
    exact List.mem_append_right _ List.mem_cons_self
  · rintro ⟨a, hreach, ha, hfetch, hbefore⟩
    refine ⟨?_, Script.fault_of_sweep_iff.mpr ⟨a, hreach, ha, hfetch⟩⟩
    -- what is found is passed over
    intro l hl
    obtain ⟨front, back, hfound⟩ := List.append_of_mem hl
    have hb : script.Reaches address l.address := by
      rw [script.address_of_sweep address hfound]
      exact Script.reaches_of_sweep hfound
    refine hbefore l.address hb (Nat.lt_of_le_of_ne (hreach.le_of_fault hfetch hb) ?_)
    rintro rfl
    have hop := script.fetch_of_sweep address l hl
    rw [hfetch] at hop
    exact nomatch hop

end Entries

/-! ### What is shown -/

/-- **What a line of a listing shows**: where an instruction begins, how many bytes it takes up, and
the text of these bytes. -/
structure Shows (line : Doc) (address size : Nat) (text : String) : Prop where
  address : line.field? "address" = some (.int address)
  size : line.field? "size" = some (.int size)
  bytes : line.field? "bytes" = some (.text text)

/-- What a listing shows of its fault is the wording of the fault. -/
theorem error_toDoc (e : Entry) :
    e.toDoc.field? "error" = e.fault.map fun f => .text f.message := by
  cases h : e.fault with
  | none => simp [Entry.toDoc, Doc.field?, h, List.lookup_cons]
  | some f => simp [Entry.toDoc, Doc.field?, h, List.lookup_cons]

/-- **Faults of listings.** The listing of an entry point has a fault if the walk from there comes
to an address that cannot be decoded before it has left the part that is listed, or comes to one as
it leaves that part; the fault is then that of the address, and its wording is what is shown.

So a listing shows the faults of its own part and no others exactly if the first address that the
walk comes to behind that part can be decoded, or is the end of the code. -/
theorem faults_inside_iff_decodes_behind (script : Script) (i : Fin script.entries.length) :
    let address := script.entries.get i
    let stop := bound script address
    NextStop script address stop ∧
    ∃ e, (ofScript script)[i.val]? = some e ∧
      e.toDoc.field? "error" = (e.fault.map fun f => .text f.message) ∧
      (∀ f, e.fault = some f ↔ ∃ a, a < script.data.size ∧ script.fetch a = .error f ∧
        (script.Reaches address a ∧ a < stop ∨ script.Overruns address stop a)) ∧
      ((∀ f, e.fault = some f ↔
          ∃ a, script.Reaches address a ∧ a < stop ∧ script.fetch a = .error f) ↔
        ∀ a, script.Overruns address stop a → a < script.data.size →
          ∃ inst, script.fetch a = .ok inst) := by
  intro address stop
  have hstop := nextStop_bound script address
  refine ⟨hstop, entryAt script i address, getElem?_ofScript script i, error_toDoc _, ?_⟩
  have hfault : ∀ f, (entryAt script i address).fault = some f ↔
      ∃ a, a < script.data.size ∧ script.fetch a = .error f ∧
        (script.Reaches address a ∧ a < stop ∨ script.Overruns address stop a) := by
    intro f
    rw [fault_entryAt_iff]
    constructor
    · rintro ⟨a, hreach, ha, hf, hbefore⟩
      refine ⟨a, ha, hf, ?_⟩
      rcases Nat.lt_or_ge a stop with hlt | hge
      · exact .inl ⟨hreach, hlt⟩
      · exact .inr ⟨hreach, hge, hbefore⟩
    · rintro ⟨a, ha, hf, ⟨hreach, hlt⟩ | hover⟩
      · exact ⟨a, hreach, ha, hf, fun b _ hb => Nat.lt_trans hb hlt⟩
      · exact ⟨a, hover.reached, ha, hf, hover.first⟩
  refine ⟨hfault, ?_⟩
  constructor
  · intro hclaim a hover ha
    cases hf : script.fetch a with
    | ok inst => exact ⟨inst, rfl⟩
    | error f =>
      -- the walk ends at this address, so there is no other one for the fault to be about
      obtain ⟨b, hreach, hlt, hfb⟩ := (hclaim f).mp ((hfault f).mpr ⟨a, ha, hf, .inr hover⟩)
      have hle := hreach.le_of_fault hfb hover.reached
      exact absurd (Nat.le_trans hover.behind hle) (Nat.not_le_of_lt hlt)
  · intro hdecodes f
    rw [hfault]
    constructor
    · rintro ⟨a, ha, hf, ⟨hreach, hlt⟩ | hover⟩
      · exact ⟨a, hreach, hlt, hf⟩
      · obtain ⟨inst, hok⟩ := hdecodes a hover ha
        rw [hf] at hok
        exact nomatch hok
    · rintro ⟨a, hreach, hlt, hf⟩
      exact ⟨a, Nat.lt_of_lt_of_le hlt hstop.le_size, hf, .inl ⟨hreach, hlt⟩⟩

/-- The end of a script, and right behind it an entry point with a byte that is no opcode. -/
def brokenNeighbour : Script where
  data := #[0x04, 0, 0x06, 0, 0x01, 0, 0xF7]
  entries := [4, 6]
  entries_lt := by decide

/-- **A listing takes over the fault of the entry point behind it**: the first one has nothing in it
that cannot be decoded. -/
theorem fault_of_next_entry :
    let script := brokenNeighbour
    Script.parse script.data = .ok script ∧ NextStop script 4 6 ∧
      (∃ e, (ofScript script)[0]? = some e ∧ e.fault = some (.unknownOpcode 0xF7 6)) ∧
      ¬ ∃ a f, script.Reaches 4 a ∧ a < 6 ∧ script.fetch a = .error f := by
  intro script
  have hparse : Script.parse script.data = .ok script :=
    Script.parse_eq_ok_iff.mpr ⟨4, rfl, by decide, rfl, by decide, rfl, rfl⟩
  refine ⟨hparse, .inl (by decide), ⟨entryAt script 0 4, rfl, by decide +kernel⟩, ?_⟩
  rintro ⟨a, f, hreach, hlt, hf⟩
  have h4 : script.fetch 4 = .ok (.evtEnd, #[0x01, 0]) := rfl
  cases hreach with
  | here =>
    rw [h4] at hf
    exact nomatch hf
  | step hop hrest =>
    -- the one instruction of the first entry point leads out of it
    rw [h4] at hop
    cases hop
    exact absurd hrest.le (Nat.not_le_of_lt hlt)

/-! ### Bytes -/

end Listing

end RoomScript
