import RoomScript.Proofs.Blob

/-!
# The format of blobs

The first word of a blob says two things at once: where the first entry point lies, and how long the
table of entry points is. A blob is a script if that length makes sense and every word of the table
points into the blob. The two ends are not the same: a table may take up the whole blob, but an
entry point has to lie before its end.

The words are looked at here one by one, at their offsets in the blob, so what is accepted is said
without going through the bytes in the way the reader does. Nothing of a blob is lost by reading it,
and whatever is put together from words and code as the format has it is read back.

**Main statements.** `Script.parse_eq_ok_iff_wellFormed`: the blobs that are read, and as what.
`Script.parse_pack`: what is put together is read back. `Script.pack_of_parse`: what is read can be
put together again. `Script.parse_exact`: the three of them.
-/

namespace RoomScript.Script

open Layout

/-! ### Words at their offsets -/

/-- The word at an offset, low byte first. A byte that is not there counts as zero. -/
def wordAt (blob : Bytes) (offset : Nat) : Nat :=
  (blob[offset]?.getD 0).toNat + 256 * (blob[offset + 1]?.getD 0).toNat

/-- The words of the table: as many as go into the length that the first of them gives. -/
def table (blob : Bytes) : List Nat :=
  (List.range (wordAt blob 0 / 2)).map fun i => wordAt blob (2 * i)

/-- **A blob in the format of scripts.** -/
structure WellFormed (blob : Bytes) : Prop where
  /-- There is a first word. -/
  room : 2 ≤ blob.size
  even : wordAt blob 0 % 2 = 0
  ne_zero : wordAt blob 0 ≠ 0
  /-- The table lies in the blob, and may be all of it. -/
  table_le : wordAt blob 0 ≤ blob.size
  /-- Every entry point lies in the blob, and never at its end. -/
  entry_lt : ∀ i < wordAt blob 0 / 2, wordAt blob (2 * i) < blob.size

instance (blob : Bytes) : Decidable (WellFormed blob) :=
  decidable_of_iff (2 ≤ blob.size ∧ wordAt blob 0 % 2 = 0 ∧ wordAt blob 0 ≠ 0 ∧
      wordAt blob 0 ≤ blob.size ∧ ∀ i < wordAt blob 0 / 2, wordAt blob (2 * i) < blob.size)
    ⟨fun ⟨room, even, ne_zero, table_le, entry_lt⟩ => ⟨room, even, ne_zero, table_le, entry_lt⟩,
      fun h => ⟨h.room, h.even, h.ne_zero, h.table_le, h.entry_lt⟩⟩

/-- Words as a table, with code behind it. -/
def pack (entries : List UInt16) (code : List UInt8) : Bytes :=
  (entries.flatMap wordBytes ++ code).toArray

theorem getElem?_words {bytes : List UInt8} {i : Nat} (h : 2 * i + 1 < bytes.length) :
    (words bytes)[i]? = some (wordAt bytes.toArray (2 * i)) := by
  fun_induction words bytes generalizing i with
  | case1 lo hi rest ih =>
    cases i with
    | zero => simp [wordAt, toNat_word]
    | succ i =>
      -- the word behind the first one is one of the words of the rest
      have hrest : 2 * i + 1 < rest.length := by
        rw [List.length_cons, List.length_cons] at h
        omega
      rw [List.getElem?_cons_succ, ih hrest]
      simp [wordAt, Nat.mul_add]
  | case2 bytes hshort =>
    have hone := length_le_one hshort
    omega

/-- **The words of the table are those at its offsets.** -/
theorem words_take {blob : Bytes} (heven : wordAt blob 0 % 2 = 0)
    (hle : wordAt blob 0 ≤ blob.size) :
    words (blob.toList.take (wordAt blob 0)) = table blob := by
  have hlength : (blob.toList.take (wordAt blob 0)).length = wordAt blob 0 := by
    rw [List.length_take, Array.length_toList, Nat.min_eq_left hle]
  apply List.ext_getElem?
  intro i
  by_cases hi : i < wordAt blob 0 / 2
  · -- both bytes of the word are in the table, where they are the same as in the blob
    have hlow : (blob.toList.take (wordAt blob 0))[2 * i]? = blob[2 * i]? := by
      rw [List.getElem?_take_of_lt (by omega), Array.getElem?_toList]
    have hhigh : (blob.toList.take (wordAt blob 0))[2 * i + 1]? = blob[2 * i + 1]? := by
      rw [List.getElem?_take_of_lt (by omega), Array.getElem?_toList]
    rw [getElem?_words (by omega), table, List.getElem?_map, List.getElem?_range hi]
    simp only [wordAt, List.getElem?_toArray] at hlow hhigh ⊢
    rw [hlow, hhigh]
    rfl
  · have hcount : (words (blob.toList.take (wordAt blob 0))).length ≤ i := by
      rw [length_words, hlength]
      omega
    rw [List.getElem?_eq_none hcount, List.getElem?_eq_none (by simp [table]; omega)]

/-! ### What is read -/

/-- The first word of a blob, as the reader finds it. -/
theorem head?_words_toList {blob : Bytes} (h : 2 ≤ blob.size) :
    (words blob.toList).head? = some (wordAt blob 0) := by
  rw [List.head?_eq_getElem?, getElem?_words (by rw [Array.length_toList]; omega)]

/-- **A blob is read if it is in the format**, as the script that is the whole blob and has the
words of the table for its entry points. -/
theorem parse_eq_ok_iff_wellFormed {blob : Bytes} {s : Script} :
    parse blob = .ok s ↔ WellFormed blob ∧ s.data = blob ∧ s.entries = table blob := by
  rw [parse_eq_ok_iff]
  constructor
  · rintro ⟨length, hfirst, hne, heven, hle, hdata, hentries⟩
    have hroom : 2 ≤ blob.size := by omega
    obtain rfl : wordAt blob 0 = length :=
      Option.some.inj ((head?_words_toList hroom).symm.trans hfirst)
    rw [words_take heven hle] at hentries
    refine ⟨⟨hroom, heven, hne, hle, fun i hi => ?_⟩, hdata, hentries⟩
    -- a script knows of its entry points that they are within its data
    rw [← hdata]
    refine s.entries_lt _ ?_
    rw [hentries, hdata]
    exact List.mem_map.mpr ⟨i, List.mem_range.mpr hi, rfl⟩
  · rintro ⟨hblob, hdata, hentries⟩
    rw [← words_take hblob.even hblob.table_le] at hentries
    exact ⟨wordAt blob 0, head?_words_toList hblob.room, hblob.ne_zero, hblob.even, hblob.table_le,
      hdata, hentries⟩

/-- A blob in the format is read. -/
theorem WellFormed.parse {blob : Bytes} (h : WellFormed blob) : ∃ s, parse blob = .ok s := by
  refine ⟨⟨blob, table blob, fun e he => ?_⟩, parse_eq_ok_iff_wellFormed.mpr ⟨h, rfl, rfl⟩⟩
  obtain ⟨i, hi, rfl⟩ := List.mem_map.mp he
  exact h.entry_lt i (List.mem_range.mp hi)

/-- The table begins with its own length. -/
theorem WellFormed.head?_table {blob : Bytes} (h : WellFormed blob) :
    (table blob).head? = some (wordAt blob 0) := by
  have := h.ne_zero
  have := h.even
  rw [List.head?_eq_getElem?, table, List.getElem?_map, List.getElem?_range (by omega)]
  rfl

/-! ### Putting a blob together -/

theorem words_pack (entries : List UInt16) (code : List UInt8) :
    words (entries.flatMap wordBytes ++ code) = entries.map UInt16.toNat ++ words code := by
  induction entries with
  | nil => rfl
  | cons e entries ih =>
    rw [List.flatMap_cons, List.append_assoc, words_append_wordBytes, ih, List.map_cons,
      List.cons_append]

theorem length_flatMap_wordBytes (entries : List UInt16) :
    (entries.flatMap wordBytes).length = 2 * entries.length := by
  induction entries with
  | nil => rfl
  | cons e entries ih =>
    rw [List.flatMap_cons, List.length_append, ih, List.length_cons, Nat.mul_succ, Nat.add_comm]
    rfl

/-- **What is put together is read back**, if the first word is the length of the table and every
word points into the blob. -/
theorem parse_pack {entries : List UInt16} {code : List UInt8}
    (hfirst : entries.head?.map UInt16.toNat = some (2 * entries.length))
    (hlt : ∀ e ∈ entries, e.toNat < 2 * entries.length + code.length) :
    ∃ s, parse (pack entries code) = .ok s ∧ s.data = pack entries code ∧
      s.entries = entries.map UInt16.toNat := by
  have hlength := length_flatMap_wordBytes entries
  have hsize : (pack entries code).size = 2 * entries.length + code.length := by
    rw [pack, List.size_toArray, List.length_append, hlength]
  have hne : 0 < entries.length := by
    cases entries with
    | nil => exact nomatch hfirst
    | cons e entries => exact Nat.succ_pos _
  -- the table is cut off where the code begins
  have htake :
      (pack entries code).toList.take (2 * entries.length) = entries.flatMap wordBytes := by
    rw [pack, List.take_left' hlength]
  have hwords : words (entries.flatMap wordBytes) = entries.map UInt16.toNat := by
    have h := words_pack entries []
    rwa [List.append_nil, words.eq_def [], List.append_nil] at h
  refine ⟨⟨pack entries code, entries.map UInt16.toNat, ?_⟩, parse_eq_ok_iff.mpr ?_, rfl, rfl⟩
  · intro e he
    obtain ⟨w, hw, rfl⟩ := List.mem_map.mp he
    rw [hsize]
    exact hlt w hw
  · refine ⟨2 * entries.length, ?_, by omega, by omega, by omega, rfl, ?_⟩
    · rw [pack, words_pack, List.head?_append, List.head?_map, hfirst]
      rfl
    · rw [htake, hwords]

/-- Words that are read off bytes have these bytes. -/
theorem flatMap_wordBytes_words {bytes : List UInt8} (h : bytes.length % 2 = 0) :
    ((words bytes).map UInt16.ofNat).flatMap wordBytes = bytes := by
  fun_induction words bytes with
  | case1 lo hi rest ih =>
    have hrest : rest.length % 2 = 0 := by
      rw [List.length_cons, List.length_cons] at h
      omega
    rw [List.map_cons, List.flatMap_cons, UInt16.ofNat_toNat, wordBytes_word, ih hrest]
    rfl
  | case2 bytes hshort =>
    have hone := length_le_one hshort
    obtain rfl : bytes = [] := List.eq_nil_of_length_eq_zero (by omega)
    rfl

/-- **What is read can be put together again** from the entry points and the code behind the
table. -/
theorem pack_of_parse {blob : Bytes} {s : Script} (h : parse blob = .ok s) :
    pack (s.entries.map UInt16.ofNat) (blob.toList.drop (wordAt blob 0)) = blob := by
  obtain ⟨hblob, -, hentries⟩ := parse_eq_ok_iff_wellFormed.mp h
  have htable : (blob.toList.take (wordAt blob 0)).length % 2 = 0 := by
    rw [List.length_take, Array.length_toList, Nat.min_eq_left hblob.table_le]
    exact hblob.even
  rw [pack, hentries, ← words_take hblob.even hblob.table_le, flatMap_wordBytes_words htable,
    List.take_append_drop]

/-! ### Exactness -/

/-- **Blobs are read exactly as their format has it, and nothing is lost.** A blob is read if it is
in the format, and no other is; the script that is read is the whole blob, and its entry points are
the words of the table, one at least and the first of them the length of the table. Whatever words
are put in front of whatever code as the format asks for, these words and these bytes are read back;
and every blob that is read is put together again from its entry points and what stands behind the
table. -/
theorem parse_exact (blob : Bytes) :
    ((∃ s, parse blob = .ok s) ↔ WellFormed blob) ∧
    (∀ s, parse blob = .ok s → s.data = blob ∧
      s.entries.length = wordAt blob 0 / 2 ∧ 1 ≤ s.entries.length ∧
      (∀ i < wordAt blob 0 / 2, s.entries[i]? = some (wordAt blob (2 * i))) ∧
      s.entries.head? = some (wordAt blob 0) ∧
      pack (s.entries.map UInt16.ofNat) (blob.toList.drop (wordAt blob 0)) = blob) ∧
    ∀ (entries : List UInt16) (code : List UInt8),
      entries.head?.map UInt16.toNat = some (2 * entries.length) →
      (∀ e ∈ entries, e.toNat < 2 * entries.length + code.length) →
      ∃ s, parse (pack entries code) = .ok s ∧ s.entries = entries.map UInt16.toNat ∧
        s.data.toList = entries.flatMap wordBytes ++ code := by
  refine ⟨⟨fun ⟨s, hs⟩ => (parse_eq_ok_iff_wellFormed.mp hs).1, WellFormed.parse⟩, ?_, ?_⟩
  · intro s hs
    obtain ⟨hblob, hdata, hentries⟩ := parse_eq_ok_iff_wellFormed.mp hs
    have hlength : s.entries.length = wordAt blob 0 / 2 := by
      rw [hentries, table, List.length_map, List.length_range]
    have hpos : 1 ≤ wordAt blob 0 / 2 := by
      have := hblob.ne_zero
      have := hblob.even
      omega
    refine ⟨hdata, hlength, hlength ▸ hpos, fun i hi => ?_, ?_, pack_of_parse hs⟩
    · rw [hentries, table, List.getElem?_map, List.getElem?_range hi]
      rfl
    · rw [hentries, hblob.head?_table]
  · intro entries code hfirst hlt
    obtain ⟨s, hs, hdata, hentries⟩ := parse_pack hfirst hlt
    exact ⟨s, hs, hentries, by rw [hdata, pack]⟩

/-- Two entry points, the second of them in the middle of the table. The last byte is the last place
that an entry point can have, and the end of the blob is none. -/
theorem parse_exact_pair :
    (WellFormed #[4, 0, 3, 0, 0x01, 0] ∧ ∃ s, parse #[4, 0, 3, 0, 0x01, 0] = .ok s ∧
      s.entries[1]? = some 3) ∧
    (¬ WellFormed #[4, 0, 6, 0, 0x01, 0] ∧ ¬ ∃ s, parse #[4, 0, 6, 0, 0x01, 0] = .ok s) ∧
    ∃ s, parse (pack [4, 5] [0x01, 0]) = .ok s ∧ s.entries = [4, 5] := by
  have hpair : WellFormed #[4, 0, 3, 0, 0x01, 0] := by decide
  have hend : ¬ WellFormed #[4, 0, 6, 0, 0x01, 0] := by decide
  obtain ⟨hread, hwords, hpack⟩ := parse_exact #[4, 0, 3, 0, 0x01, 0]
  obtain ⟨s, hs⟩ := hread.mpr hpair
  obtain ⟨s', hs', hentries, -⟩ := hpack [4, 5] [0x01, 0] rfl (by simp)
  exact ⟨⟨hpair, s, hs, (hwords s hs).2.2.2.1 1 (by decide)⟩,
    ⟨hend, fun h => hend ((parse_exact _).1.mp h)⟩, s', hs', hentries⟩

end RoomScript.Script
