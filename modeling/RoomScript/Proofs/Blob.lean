import RoomScript.Proofs.Place
import RoomScript.Proofs.Run

/-!
# Scripts on disk

On disk a script starts with the table of its entry points, and the first word of the table doubles
as its length: the first entry point is taken to lie right behind the table. The writer knows the
number of entry points from the steps, the reader only from that first word. They agree on where the
table ends if the script has its first entry point at its first byte, and on nothing else.

**Main statements.** `Script.parse_eq_ok_iff`: the blobs that are read, and as what.
`Builder.buildBlob_eq_ok`: what is written.
`Builder.stored_iff_nothing_ahead`: a script that is written is read back if and only if nothing is
written ahead of its first entry point.
-/

namespace RoomScript

namespace Script

/-! ### Reading -/

theorem words_append_wordBytes (w : UInt16) (rest : List UInt8) :
    words (Layout.wordBytes w ++ rest) = w.toNat :: words rest := by
  simp [Layout.wordBytes, words]

/-- Bytes that do not begin with a word are not two. -/
theorem length_le_one {bytes : List UInt8}
    (hshort : ∀ lo hi rest, bytes = lo :: hi :: rest → False) : bytes.length ≤ 1 := by
  rcases bytes with _ | ⟨lo, _ | ⟨hi, rest⟩⟩
  · exact Nat.zero_le 1
  · exact Nat.le_refl 1
  · exact (hshort lo hi rest rfl).elim

theorem length_words (bytes : List UInt8) : (words bytes).length = bytes.length / 2 := by
  fun_induction words bytes with
  | case1 lo hi rest ih =>
    simp only [List.length_cons, ih]
    omega
  | case2 bytes hshort =>
    have hone := length_le_one hshort
    rw [List.length_nil]
    omega

/-- The word that a blob starts with is the first of its words. -/
theorem head?_words {blob : Bytes} {lo hi : UInt8} (hlo : blob[0]? = some lo)
    (hhi : blob[1]? = some hi) :
    (words blob.toList).head? = some (Layout.word lo hi).toNat := by
  obtain ⟨_ | ⟨a, _ | ⟨b, rest⟩⟩⟩ := blob
  · cases hlo
  · cases hhi
  · cases hlo
    cases hhi
    rfl

/-- **The blobs that are read**: the first word is the length of a table of words, not empty and
within the blob, and the script is the whole blob with the words of the table. -/
theorem parse_eq_ok_iff {blob : Bytes} {s : Script} :
    parse blob = .ok s ↔ ∃ length, (words blob.toList).head? = some length ∧
      length ≠ 0 ∧ length % 2 = 0 ∧ length ≤ blob.size ∧
        s.data = blob ∧ s.entries = words (blob.toList.take length) := by
  unfold parse
  by_cases hsize : 2 ≤ blob.size
  · have hfirst := head?_words (Array.getElem?_eq_getElem (show 0 < blob.size by omega))
      (Array.getElem?_eq_getElem (show 1 < blob.size by omega))
    rw [dif_pos hsize]
    simp only [hfirst]
    constructor
    · intro h
      split at h
      · cases h
      · next hlength =>
        split at h
        · cases h
        · next hroom =>
          split at h
          · cases h
          · next script hp =>
            cases h
            exact ⟨_, rfl, by omega, by omega, by omega, ofParts_eq_ok_iff.mp hp⟩
    · rintro ⟨length, hlength, hne, heven, hroom, hparts⟩
      cases hlength
      rw [if_neg (by omega), if_neg (by omega), ofParts_eq_ok_iff.mpr hparts]
  -- a blob without room for a word has none
  · rw [dif_neg hsize]
    constructor
    · intro h
      cases h
    · rintro ⟨length, hlength, -⟩
      have hnone : words blob.toList = [] := by
        rw [← List.length_eq_zero_iff, length_words, Array.length_toList]
        omega
      rw [hnone] at hlength
      cases hlength

end Script

namespace Builder

/-! ### Writing -/

/-- **A table holds its entry points**, each moved by the length it was written with. -/
theorem tableBytes_eq_ok {length : Nat} {es : List Nat} {table : List UInt8}
    (h : tableBytes length es = .ok table) :
    table.length = 2 * es.length ∧
      ∀ rest, Script.words (table ++ rest) = es.map (· + length) ++ Script.words rest := by
  induction es generalizing table with
  | nil =>
    cases h
    exact ⟨rfl, fun rest => rfl⟩
  | cons e es ih =>
    unfold tableBytes at h
    split at h
    · next hfits =>
      split at h
      · next rest hrest =>
        cases h
        -- the check that an address fits into a word is what makes it come back unchanged
        obtain ⟨hlen, hwords⟩ := ih hrest
        refine ⟨?_, fun more => ?_⟩
        · simp only [Layout.wordBytes, List.length_append, List.length_cons, List.length_nil, hlen]
          omega
        · rw [List.append_assoc, Script.words_append_wordBytes, hwords,
            UInt16.toNat_ofNat_of_lt' hfits]
          rfl
      · cases h
    · cases h

/-- **What is written to disk**: a table that holds the entry points, then the code. -/
theorem buildBlob_eq_ok {b : Builder} {s : Script} {blob : Bytes} (hbuild : b.build = .ok s)
    (hblob : b.buildBlob = .ok blob) :
    ∃ table, blob.toList = table ++ s.data.toList ∧ table.length = 2 * s.entries.length ∧
      ∀ rest, Script.words (table ++ rest) =
        s.entries.map (· + 2 * s.entries.length) ++ Script.words rest := by
  obtain ⟨-, hdata, hentries⟩ := build_eq_ok hbuild
  unfold buildBlob at hblob
  split at hblob
  · exact nomatch hblob
  · split at hblob
    · exact nomatch hblob
    · next table htable =>
      cases hblob
      rw [← hentries] at htable
      exact ⟨table, by rw [hdata]; simp, tableBytes_eq_ok htable⟩

/-! ### What is written ahead of the first entry point -/

/-- The number of bytes written before the first entry point is declared. A script that declares
none starts at its first byte, so there nothing is ahead. -/
def ahead (steps : List Step) : Nat :=
  if .entry ∈ steps then (run (steps.takeWhile (· != .entry))).code.size else 0

theorem toList_entries_entry (b : Builder) :
    (b.apply .entry).entries.toList = b.entries.toList ++ [b.code.size] := Array.toList_push

/-- Entry points are kept in the order they are declared in. -/
theorem entries_prefix (steps : List Step) (b : Builder) :
    b.entries.toList <+: (steps.foldl apply b).entries.toList := by
  induction steps generalizing b with
  | nil => exact List.prefix_refl _
  | cons s steps ih =>
    refine List.IsPrefix.trans ?_ (ih (b.apply s))
    by_cases hs : s = .entry
    · subst hs
      exact ⟨[b.code.size], (toList_entries_entry b).symm⟩
    · exact ⟨[], (List.append_nil _).trans (congrArg Array.toList (entries_apply b hs).symm)⟩

/-- The first entry point that steps declare is where the code stands at the first of them. -/
theorem head?_entries (steps : List Step) {b : Builder} (hb : b.entries = #[]) :
    (steps.foldl apply b).entries.toList.head? =
      if .entry ∈ steps then some ((steps.takeWhile (· != .entry)).foldl apply b).code.size
      else none := by
  induction steps generalizing b with
  | nil => simp [hb]
  | cons s steps ih =>
    by_cases hs : s = .entry
    -- entry points are only added, so the first one stays the first
    · subst hs
      obtain ⟨more, hmore⟩ := entries_prefix steps (b.apply .entry)
      have hfirst : (b.apply .entry).entries.toList = [b.code.size] := by
        simp [toList_entries_entry, hb]
      simp [← hmore, hfirst]
    · rw [List.foldl_cons, ih ((entries_apply b hs).trans hb)]
      simp [List.mem_cons, Ne.symm hs, hs]

/-- **The first entry point of a script comes right behind what is written ahead of it.** -/
theorem head?_entryPoints (steps : List Step) :
    (run steps).entryPoints.head? = some (ahead steps) := by
  have hhead := head?_entries steps (b := {}) rfl
  unfold entryPoints ahead
  by_cases hentry : Step.entry ∈ steps
  · rw [if_pos hentry] at hhead ⊢
    rw [if_neg]
    · exact hhead
    · intro hempty
      change (run steps).entries.toList.head? = _ at hhead
      rw [Array.isEmpty_iff.mp hempty] at hhead
      exact nomatch hhead
  · rw [if_neg hentry] at hhead ⊢
    rw [if_pos]
    · rfl
    · exact Array.isEmpty_iff.mpr (Array.toList_eq_nil_iff.mp (List.head?_eq_none_iff.mp hhead))

/-! ### Writing and reading -/

end Builder

/-- **A blob that a script can be read back from**: it is read as a script with as many entry
points, each moved by the length of the table, and with the code behind the table. -/
def Script.StoredIn (s : Script) (blob : Bytes) : Prop :=
  ∃ s', Script.parse blob = .ok s' ∧
    s'.entries = s.entries.map (· + 2 * s.entries.length) ∧
    s'.data.toList.drop (2 * s.entries.length) = s.data.toList

namespace Builder

/-- **A script is read back from its blob if it starts with its first entry point**, and only then:
the word in front says that the table ends where the first entry point lies. -/
theorem storedIn_iff {b : Builder} {s : Script} {blob : Bytes} {first : Nat}
    (hbuild : b.build = .ok s) (hblob : b.buildBlob = .ok blob)
    (hfirst : s.entries.head? = some first) : s.StoredIn blob ↔ first = 0 := by
  obtain ⟨table, hlist, hlen, hwords⟩ := buildBlob_eq_ok hbuild hblob
  obtain ⟨es, hes⟩ := List.head?_eq_some_iff.mp hfirst
  have hsize : blob.size = 2 * s.entries.length + s.data.size := by
    rw [← Array.length_toList, hlist, List.length_append, hlen, Array.length_toList]
  have hpos : 0 < s.entries.length := by rw [hes]; simp
  -- the word in front is the first entry point behind the table
  have htable : (Script.words blob.toList).head? = some (first + 2 * s.entries.length) := by
    rw [hlist, hwords, List.head?_append, List.head?_map, hfirst]
    rfl
  constructor
  · rintro ⟨s', hparse, hentries, -⟩
    obtain ⟨length, hlength, -, heven, hroom, -, hread⟩ := Script.parse_eq_ok_iff.mp hparse
    have hcount := congrArg List.length hread
    rw [hentries, Script.length_words, List.length_map, List.length_take,
      Array.length_toList] at hcount
    rw [htable] at hlength
    cases hlength
    omega
  · rintro rfl
    have htake : blob.toList.take (2 * s.entries.length) = table := by
      rw [hlist, ← hlen, List.take_left]
    have hread : Script.words table = s.entries.map (· + 2 * s.entries.length) := by
      have h := hwords []
      rwa [List.append_nil, Script.words.eq_def [], List.append_nil] at h
    have hlt : ∀ e ∈ s.entries.map (· + 2 * s.entries.length), e < blob.size := by
      intro e he
      obtain ⟨e', he', rfl⟩ := List.mem_map.mp he
      have := s.entries_lt e' he'
      omega
    rw [Nat.zero_add] at htable
    refine ⟨⟨blob, _, hlt⟩, Script.parse_eq_ok_iff.mpr ⟨_, htable, ?_⟩, rfl, ?_⟩
    · exact ⟨by omega, by omega, by omega, rfl, by rw [htake, hread]⟩
    · change blob.toList.drop _ = _
      rw [hlist, ← hlen, List.drop_left]

/-- **Stored scripts are read back if nothing stands ahead of their first entry point.** Take any
steps that can be built and written to disk. The blob is read as a script with the same entry
points, each moved by the length of the table, and the same code behind the table, if and only if
no byte is written before the first entry point is declared. -/
theorem stored_iff_nothing_ahead {steps : List Step} {s : Script} {blob : Bytes}
    (hbuild : (run steps).build = .ok s) (hblob : (run steps).buildBlob = .ok blob) :
    s.StoredIn blob ↔ ahead steps = 0 := by
  obtain ⟨-, -, hentries⟩ := build_eq_ok hbuild
  exact storedIn_iff hbuild hblob (by rw [hentries, head?_entryPoints])

/-- Two entry points, the first one at the first byte. -/
theorem stored_iff_nothing_ahead_two :
    let steps : List Step := [.entry, .evtEnd, .entry, .nop, .evtEnd]
    let s : Script := ⟨#[0x01, 0, 0x00, 0x01, 0], [0, 2], by decide⟩
    let blob : Bytes := #[4, 0, 6, 0, 0x01, 0, 0x00, 0x01, 0]
    (run steps).build = .ok s ∧ (run steps).buildBlob = .ok blob ∧ ahead steps = 0 ∧
      s.StoredIn blob := by
  intro steps s blob
  have hbuild : (run steps).build = .ok s := by decide
  have hblob : (run steps).buildBlob = .ok blob := by decide
  have hahead : ahead steps = 0 := by decide
  exact ⟨hbuild, hblob, hahead, (stored_iff_nothing_ahead hbuild hblob).mpr hahead⟩

/-- **An instruction ahead of the only entry point is read as an entry of the table.** The word in
front says four, so the two bytes of the instruction are taken for a second entry point. -/
theorem code_ahead_not_stored :
    let steps : List Step := [.evtEnd, .entry, .evtEnd]
    let s : Script := ⟨#[0x01, 0, 0x01, 0], [2], by decide⟩
    let blob : Bytes := #[4, 0, 0x01, 0, 0x01, 0]
    (run steps).build = .ok s ∧ (run steps).buildBlob = .ok blob ∧
      Script.parse blob = .ok ⟨blob, [4, 1], by decide⟩ ∧ ¬ s.StoredIn blob := by
  intro steps s blob
  have hparse : Script.parse blob = .ok ⟨blob, [4, 1], by decide⟩ := by decide
  refine ⟨by decide, by decide, hparse, ?_⟩
  rintro ⟨s', hs', hentries, -⟩
  rw [hparse] at hs'
  cases hs'
  exact absurd hentries (by decide)

end Builder

end RoomScript
