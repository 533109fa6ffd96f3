import Mathlib.Algebra.GroupWithZero.Nat
import RoomScript.Proofs.Grammar
import RoomScript.Proofs.Reading

/-!
# Assembling and sweeping

A sweep reads the code from front to back and cuts it into instructions, each as long as its opcode
says. An assembler that is given instructions one by one puts them down just as long. So the one
undoes the other, in both directions: a sweep over assembled instructions finds them again, and
assembling what a sweep has found gives the swept bytes again, provided that it has come to their
end.

A sweep is a list, with the fault it ends on kept apart. `Script.Walk` is the sweep as it is asked
for, one item at a time: it stands at an address, and remembers that it has failed. That the two are
the same (`Script.Walk.items_eq`) is what it means that a walk always ends, and that nothing comes
after a fault.

**Main statements.** `Script.sweep_of_instructions`: the sweep over assembled instructions.
`Script.address_of_sweep` and `Script.end_of_sweep`: what is found is contiguous, and a fault sits
right behind it. `Script.bytes_of_sweep`: a sweep without a fault has passed over all the bytes.
`Script.sweep_inverts_assembly` puts them together.
-/

namespace RoomScript

namespace Script

/-! ### One item at a time -/

/-- What a sweep gives, in order: instructions, and at the end the fault if there is one. -/
def Sweep.items (w : Sweep) : List (Except Fault Located) :=
  w.found.map .ok ++ w.fault.toList.map .error

/-- **A sweep under way**: where it stands, and whether it has come to a fault. -/
structure Walk where
  pc : Nat
  failed : Bool := false

namespace Walk

/-- The next item of a walk, and the walk behind it. There is none after a fault and none behind the
last byte. -/
def next? (s : Script) (w : Walk) : Option (Except Fault Located × Walk) :=
  if w.failed = true ∨ s.data.size ≤ w.pc then none
  else
    match s.fetch w.pc with
    | .ok (op, raw) => some (.ok ⟨w.pc, op, raw⟩, { w with pc := w.pc + op.size })
    | .error f => some (.error f, { w with failed := true })

/-- What a walk gives when it is asked a number of times. -/
def items (s : Script) : Nat → Walk → List (Except Fault Located)
  | 0, _ => []
  | n + 1, w =>
    match w.next? s with
    | none => []
    | some (item, w) => item :: items s n w

end Walk

section Unfolding

variable {s : Script} {a : Nat} {op : Opcode} {raw : Bytes} {f : Fault}

theorem sweep_of_le (h : s.data.size ≤ a) : s.sweep a = ⟨[], none⟩ := by
  rw [sweep, if_neg (by omega)]

theorem lt_of_fetch (hf : s.fetch a = .ok (op, raw)) : a < s.data.size := by
  have hle := (fetch_eq_ok_iff.mp hf).2.1
  have hpos := op.size_pos
  omega

theorem sweep_of_fetch (hf : s.fetch a = .ok (op, raw)) :
    s.sweep a =
      ⟨⟨a, op, raw⟩ :: (s.sweep (a + op.size)).found, (s.sweep (a + op.size)).fault⟩ := by
  rw [sweep, if_pos (lt_of_fetch hf), hf]

theorem sweep_of_fault (ha : a < s.data.size) (hf : s.fetch a = .error f) :
    s.sweep a = ⟨[], some f⟩ := by
  rw [sweep, if_pos ha, hf]

end Unfolding

/-- Nothing comes after a fault. -/
theorem Walk.items_failed (s : Script) (n a : Nat) : items s n ⟨a, true⟩ = [] := by
  cases n with
  | zero => rfl
  | succ n => rw [items, next?, if_pos (.inl rfl)]

/-- **A walk gives the items of the sweep**, one at a time, and then nothing more. -/
theorem Walk.items_eq (s : Script) (n a : Nat) :
    items s n ⟨a, false⟩ = (s.sweep a).items.take n := by
  -- the walk is followed from one item to the next, so the number of questions decreases
  induction n generalizing a with
  | zero => rfl
  | succ n ih =>
    rw [items, next?]
    by_cases ha : s.data.size ≤ a
    · rw [if_pos (.inr ha), sweep_of_le ha]
      rfl
    · rw [if_neg (by simp [ha])]
      cases hf : s.fetch a with
      | error f =>
        rw [sweep_of_fault (Nat.lt_of_not_le ha) hf]
        simp [Sweep.items, items_failed]
      | ok fetched =>
        rw [sweep_of_fetch hf]
        simp [Sweep.items, ih]

end Script

/-! ### Sweeping what was assembled -/

/-- The steps that put down instructions one by one. -/
def Step.instructions (insts : List (Opcode × List UInt8)) : List Step :=
  insts.map fun i => .instruction i.1 i.2

/-- The bytes of instructions, one behind the other. -/
def Opcode.rowBytes (insts : List (Opcode × List UInt8)) : List UInt8 :=
  insts.flatMap fun i => i.1.bytes i.2

/-- **Instructions where they stand**, the first at an address and every other right behind the one
before. -/
def Script.placed : Nat → List (Opcode × List UInt8) → List Script.Located
  | _, [] => []
  | a, (op, payload) :: rest => ⟨a, op, (op.bytes payload).toArray⟩ :: placed (a + op.size) rest

/-- Every payload leaves room for the opcode. -/
def Opcode.RowFits (insts : List (Opcode × List UInt8)) : Prop :=
  ∀ i ∈ insts, i.2.length ≤ i.1.size - 1

theorem Opcode.RowFits.head {op : Opcode} {payload : List UInt8}
    {insts : List (Opcode × List UInt8)} (h : RowFits ((op, payload) :: insts)) :
    payload.length + 1 ≤ op.size := by
  have hle := h (op, payload) List.mem_cons_self
  have hpos := op.size_pos
  simp only at hle
  omega

theorem Opcode.RowFits.tail {i : Opcode × List UInt8} {insts : List (Opcode × List UInt8)}
    (h : RowFits (i :: insts)) : RowFits insts :=
  fun j hj => h j (List.mem_cons_of_mem i hj)

namespace Builder

/-- Instructions that fit are appended to the code, and nothing else is changed. -/
theorem foldl_instructions {insts : List (Opcode × List UInt8)} (h : Opcode.RowFits insts)
    (b : Builder) :
    (Step.instructions insts).foldl apply b = b.grow (Opcode.rowBytes insts) [] := by
  induction insts generalizing b with
  | nil => exact (grow_nil b).symm
  | cons i insts ih =>
    obtain ⟨op, payload⟩ := i
    have hhead : b.apply (.instruction op payload) = b.grow (op.bytes payload) [] := by
      rw [← put_eq_grow, ← emit_of_fits b op payload h.head]
      rfl
    change (Step.instructions insts).foldl apply (b.apply (.instruction op payload)) = _
    rw [hhead, ih h.tail, grow_grow]
    rfl

/-- What assembling instructions leaves: their bytes, and no mistake. -/
theorem run_instructions {insts : List (Opcode × List UInt8)} (h : Opcode.RowFits insts) :
    (run (Step.instructions insts)).code.toList = Opcode.rowBytes insts ∧
      (run (Step.instructions insts)).error = none ∧
      (run (Step.instructions insts)).opened = [] ∧
      (run (Step.instructions insts)).entryPoints = [0] := by
  rw [run, foldl_instructions h]
  refine ⟨?_, rfl, rfl, ?_⟩
  · simp [grow]
  · simp [grow, entryPoints]

/-- A row of instructions is as long as the instructions are. -/
theorem rowBytes_pos {insts : List (Opcode × List UInt8)} (hne : insts ≠ []) :
    0 < (Opcode.rowBytes insts).length := by
  cases insts with
  | nil => exact absurd rfl hne
  | cons i insts =>
    change 0 < (i.1.bytes i.2 ++ Opcode.rowBytes insts).length
    rw [List.length_append, Opcode.bytes]
    exact Nat.lt_add_right _ (Nat.succ_pos _)

/-- **Instructions make a script as soon as there is one of them.** Without any there is no byte for
the entry point that a script has in any case. -/
theorem build_instructions {insts : List (Opcode × List UInt8)} (h : Opcode.RowFits insts)
    (hne : insts ≠ []) :
    ∃ s, (run (Step.instructions insts)).build = .ok s ∧ s.data.toList = Opcode.rowBytes insts := by
  obtain ⟨hcode, herror, hopened, hentries⟩ := run_instructions h
  have hlt : ∀ e ∈ (run (Step.instructions insts)).entryPoints,
      e < (run (Step.instructions insts)).code.size := by
    rw [hentries, List.forall_mem_singleton, ← Array.length_toList, hcode]
    exact rowBytes_pos hne
  obtain ⟨s, hs⟩ := (build_isOk_iff _).mpr ⟨herror, hopened, hlt⟩
  refine ⟨s, hs, ?_⟩
  rw [(build_eq_ok hs).2.1, hcode]

end Builder

namespace Script

/-- **A sweep over assembled instructions finds them**, from whatever address they begin at to the
end of the code. -/
theorem sweep_of_instructions {s : Script} {insts : List (Opcode × List UInt8)}
    (h : Opcode.RowFits insts) (front : List UInt8)
    (hdata : s.data.toList = front ++ Opcode.rowBytes insts) :
    s.sweep front.length = ⟨placed front.length insts, none⟩ := by
  induction insts generalizing front with
  | nil =>
    -- the instructions are used up, and so is the code
    refine sweep_of_le (Nat.le_of_eq ?_)
    rw [← Array.length_toList, hdata]
    simp [Opcode.rowBytes]
  | cons i insts ih =>
    obtain ⟨op, payload⟩ := i
    have hholds : s.Holds front.length (op.bytes payload) :=
      ⟨front, Opcode.rowBytes insts, by rw [hdata]; simp [Opcode.rowBytes], rfl⟩
    have hfetch := fetch_of_holds op payload h.head hholds
    have hrest := ih h.tail (front ++ op.bytes payload)
      (by rw [hdata]; simp [Opcode.rowBytes])
    rw [List.length_append, Opcode.length_bytes h.head] at hrest
    rw [sweep_of_fetch hfetch, hrest]
    rfl

end Script

/-! ### Assembling what was swept -/

/-- **A whole instruction is its opcode and the bytes behind it**, and needs no filling up. -/
theorem Whole.bytes_drop {op : Opcode} {raw : Bytes} (h : Whole op raw) :
    (raw.toList.drop 1).length + 1 = op.size ∧ op.bytes (raw.toList.drop 1) = raw.toList := by
  obtain ⟨hop, hsize⟩ := h
  rw [← Array.getElem?_toList] at hop
  rw [← Array.length_toList] at hsize
  generalize raw.toList = bytes at hop hsize
  cases bytes with
  | nil => exact nomatch hop
  | cons first payload =>
    obtain rfl := Option.some.inj hop
    have hlength : payload.length + 1 = op.size := hsize
    refine ⟨hlength, ?_⟩
    -- the payload has its full length, so there is nothing to fill up
    have hzeros : op.size - 1 - payload.length = 0 := by omega
    simp [Opcode.bytes, hzeros]

namespace Script

/-- The number of bytes that instructions take up. -/
def span (ls : List Located) : Nat := (ls.map fun l => l.op.size).sum

theorem span_cons (l : Located) (ls : List Located) : span (l :: ls) = l.op.size + span ls := by
  rw [span, span, List.map_cons, List.sum_cons]

/-- An instruction as it is given to the assembler: the opcode, and the bytes behind it. -/
def Located.parts (l : Located) : Opcode × List UInt8 := (l.op, l.raw.toList.drop 1)

/-- The bytes of an instruction that is fetched are those that stand there. -/
theorem toList_of_fetch {s : Script} {a : Nat} {op : Opcode} {raw : Bytes}
    (hf : s.fetch a = .ok (op, raw)) : raw.toList = (s.data.toList.drop a).take op.size := by
  obtain ⟨-, -, rfl⟩ := fetch_eq_ok_iff.mp hf
  rw [Array.toList_extract, List.extract_eq_take_drop, Nat.add_sub_cancel_left]

/-- Where a fetch fails, and for what. -/
theorem fault_of_fetch {s : Script} {a : Nat} {f : Fault} (ha : a < s.data.size)
    (hf : s.fetch a = .error f) :
    (∃ byte, f = .unknownOpcode byte a) ∨ ∃ op, f = .truncated op a s.data.size := by
  unfold fetch at hf
  rw [Array.getElem?_eq_getElem ha] at hf
  simp only at hf
  split at hf
  · cases hf
    exact .inl ⟨_, rfl⟩
  · split at hf
    · cases hf
    · cases hf
      exact .inr ⟨_, rfl⟩

section Sweeps

variable (s : Script) (start : Nat)

/-- What a sweep finds is fetched where it stands. -/
theorem fetch_of_sweep : ∀ l ∈ (s.sweep start).found, s.fetch l.address = .ok (l.op, l.raw) := by
  fun_induction sweep s start with
  | case1 a ha f hf => exact List.forall_mem_nil _
  | case2 a ha op raw hf rest ih => exact List.forall_mem_cons.mpr ⟨hf, ih⟩
  | case3 a ha => exact List.forall_mem_nil _

/-- **What a sweep finds is contiguous**: every instruction stands right behind those before it. -/
theorem address_of_sweep {front back : List Located} {l : Located}
    (h : (s.sweep start).found = front ++ l :: back) : l.address = start + span front := by
  -- on the recursion of the sweep, which goes on behind the instruction it has found
  induction start using sweep.induct s generalizing front with
  | case1 a ha f hf =>
    rw [sweep_of_fault ha hf] at h
    exact absurd h (by simp)
  | case2 a ha op raw hf ih =>
    rw [sweep_of_fetch hf] at h
    cases front with
    | nil =>
      cases h
      rfl
    | cons first front =>
      obtain ⟨rfl, htail⟩ := List.cons.inj h
      rw [ih htail, span_cons, Nat.add_assoc]
  | case3 a ha =>
    rw [sweep_of_le (Nat.le_of_not_lt ha)] at h
    exact absurd h (by simp)

/-- **A sweep stops right behind what it has found**, at a fault or at the end of the code. -/
theorem end_of_sweep :
    match (s.sweep start).fault with
    | some f => start + span (s.sweep start).found < s.data.size ∧
        s.fetch (start + span (s.sweep start).found) = .error f
    | none => s.data.size ≤ start + span (s.sweep start).found := by
  fun_induction sweep s start with
  | case1 a ha f hf => exact ⟨ha, hf⟩
  | case2 a ha op raw hf rest ih =>
    simp only
    rw [span_cons, ← Nat.add_assoc]
    exact ih
  | case3 a ha => exact Nat.le_of_not_lt ha

/-- **What a sweep has passed over is what it has found**, byte for byte. -/
theorem bytes_of_sweep :
    (s.sweep start).found.flatMap (fun l => l.raw.toList) =
      (s.data.toList.drop start).take (span (s.sweep start).found) := by
  fun_induction sweep s start with
  | case1 a ha f hf => rfl
  | case2 a ha op raw hf rest ih =>
    -- the bytes of the first instruction, and then those behind them
    rw [List.flatMap_cons, ih, toList_of_fetch hf, span_cons, List.take_add, List.drop_drop]
  | case3 a ha => rfl

/-- What a sweep finds fits the assembler, and is put down as the bytes it was read from. -/
theorem rowBytes_of_sweep :
    Opcode.RowFits ((s.sweep start).found.map Located.parts) ∧
      Opcode.rowBytes ((s.sweep start).found.map Located.parts) =
        (s.sweep start).found.flatMap (fun l => l.raw.toList) := by
  have hwhole : ∀ l ∈ (s.sweep start).found, Whole l.op l.raw := fun l hl =>
    whole_of_fetch (s.fetch_of_sweep start l hl)
  generalize (s.sweep start).found = ls at hwhole
  refine ⟨?_, ?_⟩
  · intro i hi
    obtain ⟨l, hl, rfl⟩ := List.mem_map.mp hi
    have hlength := (hwhole l hl).bytes_drop.1
    change (l.raw.toList.drop 1).length ≤ l.op.size - 1
    omega
  · rw [Opcode.rowBytes, List.flatMap_map, List.flatMap_def, List.flatMap_def]
    exact congrArg List.flatten (List.map_congr_left fun l hl => (hwhole l hl).bytes_drop.2)

end Sweeps

/-! ### The two directions together -/

/-- **Assembling and sweeping are inverse.** Instructions whose payloads fit, at least one of them,
make a script, and a walk over it gives exactly them: in order, each with its opcode byte, its
payload and zeros up to its size, at consecutive addresses, and with no fault.

Conversely, a walk over any script from any address gives the items of a list and then nothing more:
instructions that stand one behind the other from there, and at the end at most one fault, which is
about the address right behind them. If there is none, assembling what was found gives all the bytes
from that address on. -/
theorem sweep_inverts_assembly :
    (∀ insts : List (Opcode × List UInt8), (∀ i ∈ insts, i.2.length ≤ i.1.size - 1) → insts ≠ [] →
      ∃ s, (Builder.run (Step.instructions insts)).build = .ok s ∧
        ∀ n, Walk.items s n ⟨0, false⟩ = ((placed 0 insts).map .ok).take n) ∧
    ∀ (s : Script) (start : Nat),
      let swept := s.sweep start
      let behind := start + span swept.found
      (∀ n, Walk.items s n ⟨start, false⟩ = swept.items.take n) ∧
      (∀ front l back, swept.found = front ++ l :: back →
        l.address = start + span front ∧ s.fetch l.address = .ok (l.op, l.raw)) ∧
      (∀ f, swept.fault = some f → s.fetch behind = .error f ∧
        ((∃ byte, f = .unknownOpcode byte behind) ∨ ∃ op, f = .truncated op behind s.data.size)) ∧
      (swept.fault = none →
        let b := Builder.run (Step.instructions (swept.found.map Located.parts))
        b.error = none ∧ b.code.toList = s.data.toList.drop start) := by
  refine ⟨?_, ?_⟩
  · intro insts hfits hne
    obtain ⟨s, hs, hdata⟩ := Builder.build_instructions hfits hne
    have hsweep : s.sweep 0 = ⟨placed 0 insts, none⟩ := sweep_of_instructions hfits [] hdata
    refine ⟨s, hs, fun n => ?_⟩
    rw [Walk.items_eq, hsweep, Sweep.items]
    simp
  · intro s start swept behind
    have hend := s.end_of_sweep start
    refine ⟨fun n => Walk.items_eq s n start, ?_, ?_, ?_⟩
    · intro front l back hfound
      exact ⟨s.address_of_sweep start hfound, s.fetch_of_sweep start l (by rw [hfound]; simp)⟩
    · intro f hf
      rw [hf] at hend
      exact ⟨hend.2, fault_of_fetch hend.1 hend.2⟩
    · intro hnone b
      rw [hnone] at hend
      obtain ⟨hfits, hbytes⟩ := s.rowBytes_of_sweep start
      obtain ⟨hcode, herror, -⟩ := Builder.run_instructions hfits
      refine ⟨herror, ?_⟩
      -- the sweep has come to the end of the code, so what it has found is all of it
      have hall : (s.data.toList.drop start).length ≤ span (s.sweep start).found := by
        rw [List.length_drop, Array.length_toList]
        omega
      calc b.code.toList
          = Opcode.rowBytes (swept.found.map Located.parts) := hcode
        _ = swept.found.flatMap (fun l => l.raw.toList) := hbytes
        _ = (s.data.toList.drop start).take (span swept.found) := s.bytes_of_sweep start
        _ = s.data.toList.drop start := List.take_of_length_le hall

/-- A condition with a short payload and the end of a script: they are found again, filled up with
zeros, and what is found from the second one on is put down as it was. -/
theorem sweep_inverts_assembly_pair :
    (∃ s, (Builder.run (Step.instructions [(.check, [1, 2]), (.evtEnd, [])])).build = .ok s ∧
      ∀ n, Walk.items s n ⟨0, false⟩ =
        [.ok ⟨0, .check, #[0x21, 1, 2, 0]⟩, .ok ⟨4, .evtEnd, #[0x01, 0]⟩].take n) ∧
    let s : Script := ⟨#[0x21, 1, 2, 0, 0x01, 0], [0], by decide⟩
    (Builder.run (Step.instructions ((s.sweep 4).found.map Located.parts))).code.toList =
      [0x01, 0] := by
  refine ⟨sweep_inverts_assembly.1 [(.check, [1, 2]), (.evtEnd, [])] (by decide) (by decide), ?_⟩
  intro s
  have hnone : (s.sweep 4).fault = none := by decide +kernel
  exact ((sweep_inverts_assembly.2 s 4).2.2.2 hnone).2

end Script

/-- **No instructions make no script**: there is no byte for its entry point. -/
theorem Builder.no_script_of_nothing :
    let insts : List (Opcode × List UInt8) := []
    (∀ i ∈ insts, i.2.length ≤ i.1.size - 1) ∧
      ¬ ∃ s, (run (Step.instructions insts)).build = .ok s ∧
        ∀ n, Script.Walk.items s n ⟨0, false⟩ = ((Script.placed 0 insts).map .ok).take n := by
  refine ⟨by decide, ?_⟩
  rintro ⟨s, hs, -⟩
  have hrefused : (run (Step.instructions [])).build = .error (.entry ⟨0, 0, 0⟩) := rfl
  rw [hrefused] at hs
  exact nomatch hs

end RoomScript
