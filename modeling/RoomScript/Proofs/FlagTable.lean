import Mathlib.Data.List.Induction
import RoomScript.Proofs.Run
import RoomScript.Session

/-!
# Flags are a table of truth values

A bank packs its 256 flags into eight words, and there is no bank before one of its flags is
written. None of this can be seen from outside: flags are read and written as if each of them had a
place of its own.

A flag is one binary digit of one word. Writing it puts the digit in place with a mask, which leaves
the other digits of the word alone, and puts the word back, which leaves the other words alone. Two
flags of a bank that share a word differ in their digit, and two that share a digit differ in their
word. A bank that is missing reads as one with no digit set, so it does not matter when it comes
into being.

**Main statements.** `Flags.get_set`: a flag that is written has its new value, and every other flag
what it had. `Flags.get_setAll`: after any number of writes a flag has the value that was written to
it last. `Machine.turn_setBit`: what an instruction does to the flags of a session.
`Flags.refine_table` puts them together.
-/

namespace RoomScript

open Payload

namespace Flags

/-! ### Digits of a word -/

/-- The place of a flag in its word, counted in binary digits. -/
def digit (bit : UInt8) : Nat := bit.toNat % 32

theorem digit_lt (bit : UInt8) : digit bit < 32 := Nat.mod_lt _ (by decide)

/-- A flag is told by its word and its digit. -/
theorem eq_of_digit {bit bit' : UInt8} (hword : wordIndex bit = wordIndex bit')
    (hdigit : digit bit = digit bit') : bit = bit' := by
  have hquot : bit.toNat / 32 = bit'.toNat / 32 := Fin.ext_iff.mp hword
  unfold digit at hdigit
  exact UInt8.toNat_inj.mp (by omega)

theorem toBitVec_mask (bit : UInt8) : (mask bit).toBitVec = BitVec.twoPow 32 (digit bit) := by
  rw [BitVec.twoPow_eq]
  simp [mask, digit]

/-- The mask has the digit of its flag, and no other. -/
theorem getLsbD_mask (bit : UInt8) (k : Nat) :
    (mask bit).toBitVec.getLsbD k = decide (digit bit = k) := by
  rw [toBitVec_mask, BitVec.getLsbD_twoPow, decide_eq_true (digit_lt bit), Bool.true_and]

/-- A mask picks out one digit. -/
theorem and_mask_ne_zero (word : UInt32) (bit : UInt8) :
    (word &&& mask bit != 0) = word.toBitVec.getLsbD (digit bit) := by
  have hand : (word &&& mask bit).toBitVec =
      if word.toBitVec.getLsbD (digit bit) then BitVec.twoPow 32 (digit bit) else 0 := by
    rw [UInt32.toBitVec_and, toBitVec_mask, BitVec.and_twoPow]
    rfl
  cases hset : word.toBitVec.getLsbD (digit bit) with
  | false =>
    rw [hset, if_neg (by decide)] at hand
    rw [show word &&& mask bit = 0 from UInt32.toBitVec_inj.mp hand]
    rfl
  | true =>
    rw [hset, if_pos rfl] at hand
    rw [bne_iff_ne]
    intro hzero
    -- the digit of the flag itself tells the two apart
    have hdigit := congrArg (fun w : BitVec 32 => w.getLsbD (digit bit)) hand
    rw [hzero] at hdigit
    simp [digit_lt] at hdigit

/-- **Writing a flag changes one digit of its word.** -/
theorem getLsbD_written (word : UInt32) (bit : UInt8) (on : Bool) {k : Nat} (hk : k < 32) :
    (if on then word ||| mask bit else word &&& ~~~mask bit).toBitVec.getLsbD k =
      if digit bit = k then on else word.toBitVec.getLsbD k := by
  cases on with
  | true =>
    rw [if_pos rfl, UInt32.toBitVec_or, BitVec.getLsbD_or, getLsbD_mask]
    by_cases h : digit bit = k <;> simp [h]
  | false =>
    rw [if_neg (by decide), UInt32.toBitVec_and, UInt32.toBitVec_not, BitVec.getLsbD_and,
      BitVec.getLsbD_not, getLsbD_mask, decide_eq_true hk, Bool.true_and]
    by_cases h : digit bit = k <;> simp [h]

/-! ### One write -/

/-- The words of a bank, which are clear if there is no bank. -/
def bank (f : Flags) (array : UInt8) : Bank := (f.banks.get? array).getD (Vector.replicate 8 0)

/-- A flag is one digit of one word. -/
theorem get_eq (f : Flags) (array bit : UInt8) :
    f.get array bit = ((f.bank array).get (wordIndex bit)).toBitVec.getLsbD (digit bit) := by
  unfold get bank
  cases f.banks.get? array with
  | some words => exact and_mask_ne_zero _ bit
  | none => simp [get_eq_getElem]

/-- Writing a flag replaces one word of one bank. -/
theorem bank_set (f : Flags) (array bit array' : UInt8) (on : Bool) :
    (f.set array bit on).bank array' =
      if array' = array then
        (f.bank array).set (wordIndex bit).val
          (let word := (f.bank array).get (wordIndex bit)
           if on then word ||| mask bit else word &&& ~~~mask bit) (wordIndex bit).isLt
      else f.bank array' := by
  unfold bank set
  rw [Table.get?_insert]
  by_cases h : array' = array
  · rw [if_pos h, if_pos h, Option.getD_some]
    rfl
  · rw [if_neg h, if_neg h]

/-- **A flag that is written has its new value, and every other flag of every bank what it had.** -/
theorem get_set (f : Flags) (array bit : UInt8) (on : Bool) (array' bit' : UInt8) :
    (f.set array bit on).get array' bit' =
      if array' = array ∧ bit' = bit then on else f.get array' bit' := by
  rw [get_eq, get_eq, bank_set]
  by_cases harray : array' = array
  · subst harray
    rw [if_pos rfl, get_eq_getElem, Vector.getElem_set]
    by_cases hword : wordIndex bit = wordIndex bit'
    -- the word that is written: it goes by the digits
    · rw [if_pos (congrArg Fin.val hword), getLsbD_written _ _ _ (digit_lt bit'), hword]
      have hsame : digit bit = digit bit' ↔ bit' = bit :=
        ⟨fun h => (eq_of_digit hword h).symm, fun h => by rw [h]⟩
      simp only [hsame, true_and]
    -- another word of the bank
    · have hne : bit' ≠ bit := fun h => hword (by rw [h])
      rw [if_neg (fun h => hword (Fin.ext h)), if_neg fun h => hne h.2]
      rfl
  · rw [if_neg harray, if_neg fun h => harray h.1]

/-! ### Any number of writes -/

/-- A flag and the value it is given. -/
structure Setting where
  array : UInt8
  bit : UInt8
  on : Bool
  deriving DecidableEq

/-- Writes flags one after the other. -/
def setAll (f : Flags) (settings : List Setting) : Flags :=
  settings.foldl (fun f s => f.set s.array s.bit s.on) f

/-- **The value that was written to a flag last**, if any was. -/
def lastSetting (settings : List Setting) (array bit : UInt8) : Option Bool :=
  (settings.filter fun s => s.array = array ∧ s.bit = bit).getLast?.map (·.on)

theorem lastSetting_concat (settings : List Setting) (s : Setting) (array bit : UInt8) :
    lastSetting (settings ++ [s]) array bit =
      if array = s.array ∧ bit = s.bit then some s.on else lastSetting settings array bit := by
  unfold lastSetting
  rw [List.filter_append]
  by_cases h : array = s.array ∧ bit = s.bit
  · obtain ⟨rfl, rfl⟩ := h
    rw [if_pos ⟨rfl, rfl⟩, List.filter_cons_of_pos (by simp), List.filter_nil,
      List.getLast?_concat, Option.map_some]
  · have hother : ¬ (s.array = array ∧ s.bit = bit) := fun e => h ⟨e.1.symm, e.2.symm⟩
    rw [if_neg h, List.filter_cons_of_neg (by simpa using hother), List.filter_nil,
      List.append_nil]

/-- **A flag has the value that was written to it last**, or else the one it had. -/
theorem get_setAll (f : Flags) (settings : List Setting) (array bit : UInt8) :
    (f.setAll settings).get array bit =
      (lastSetting settings array bit).getD (f.get array bit) := by
  -- The last write decides, so the list is taken apart at its end.
  induction settings using List.reverseRecOn with
  | nil => rfl
  | append_singleton settings s ih =>
    rw [setAll, List.foldl_append, List.foldl_cons, List.foldl_nil, get_set, lastSetting_concat]
    by_cases h : array = s.array ∧ bit = s.bit
    · rw [if_pos h, if_pos h, Option.getD_some]
    · rw [if_neg h, if_neg h]
      exact ih

end Flags

/-! ### Instructions on flags -/

/-- **Just one flag is written**, and all else of a stage stays as it was. -/
structure Stage.FlagSet (before after : Stage) (array bit : UInt8) (on : Bool) : Prop where
  bit_eq : ∀ array' bit', after.session.bit array' bit' =
    if array' = array ∧ bit' = bit then on else before.session.bit array' bit'
  session_eq : { after.session with flags := before.session.flags } = before.session
  scene_eq : after.scene = before.scene

/-- The write of a flag sets that flag. -/
theorem Stage.flagSet_performAll (stage : Stage) (array bit : UInt8) (on : Bool) :
    stage.FlagSet (Host.performAll stage [.setBit array bit on]) array bit on :=
  ⟨stage.session.flags.get_set array bit on, rfl, rfl⟩

/-- **What an instruction makes of its flag**, given what it was. -/
inductive Payload.SetBit.Makes (p : SetBit) (old : Bool) : Bool → Prop
  | clear (h : p.operation = 0) : p.Makes old false
  | set (h : p.operation = 1) : p.Makes old true
  | flip (h : p.operation = 7) : p.Makes old (!old)

/-- An instruction that knows what to make of its flag asks for that write. -/
theorem Memory.setBit_of_makes {n : Nat} (site : Site n) (view : Host.View) {p : SetBit} {on : Bool}
    (h : p.Makes (view.bit p.array p.bit) on) :
    setBit site view p = site.ask [.setBit p.array p.bit on] := by
  unfold setBit
  cases h with
  | clear h | set h | flip h =>
    rw [h]
    rfl

/-- **An instruction on a flag writes that flag and nothing else.** -/
theorem Machine.turn_setBit {n : Nat} (m : Machine n Stage) {rules : Rules} {script : Script}
    {i : Fin n} {raw : Bytes} (hstd : rules.handlers = Handler.standard)
    (hf : script.fetch (m.pool.thread i).pc = .ok (.setBit, raw)) :
    ∃ p : SetBit, decode SetBit raw = .ok p ∧
      ∀ on, p.Makes (m.host.session.bit p.array p.bit) on →
        (m.turn rules script i .setBit raw).2 = .ok .running ∧
          m.host.FlagSet (m.turn rules script i .setBit raw).1.host p.array p.bit on := by
  obtain ⟨p, hp, hreaction⟩ := m.reaction_reading script i (congrFun hstd .setBit) hf (by decide)
  refine ⟨p, hp, fun on hmakes => ?_⟩
  rw [Memory.setBit_of_makes _ _ hmakes] at hreaction
  obtain ⟨hhost, hresult⟩ := m.turn_ask script i hreaction
  rw [hhost]
  exact ⟨hresult, m.host.flagSet_performAll p.array p.bit on⟩

/-- **Flags are a table of truth values.** However flags are written, interleaved over banks and
bits, from no flags at all: every flag has the value that was written to it last, and is clear if
there was none. So in every session an instruction that clears, sets or flips a flag changes just
that flag, and all others keep their value, of its bank and of every other one. Flipping a flag once
more, by the same instruction anywhere, restores every flag. -/
theorem Flags.refine_table :
    (∀ (settings : List Setting) (array bit : UInt8),
      (({} : Flags).setAll settings).get array bit =
        (lastSetting settings array bit).getD false) ∧
    ∀ {n : Nat} (m : Machine n Stage) (rules : Rules) (script : Script) (i : Fin n) (raw : Bytes),
      rules.handlers = Handler.standard →
      script.fetch (m.pool.thread i).pc = .ok (.setBit, raw) →
      ∃ p : SetBit, decode SetBit raw = .ok p ∧
        let after := m.turn rules script i .setBit raw
        (∀ on, p.Makes (m.host.session.bit p.array p.bit) on →
          after.2 = .ok .running ∧ m.host.FlagSet after.1.host p.array p.bit on) ∧
        (p.operation = 7 →
          ∀ {n' : Nat} (m' : Machine n' Stage) (script' : Script) (i' : Fin n') (raw' : Bytes),
            m'.host.session = after.1.host.session →
            script'.fetch (m'.pool.thread i').pc = .ok (.setBit, raw') →
            decode SetBit raw' = .ok p →
            ∀ array bit, (m'.turn rules script' i' .setBit raw').1.host.session.bit array bit =
              m.host.session.bit array bit) := by
  refine ⟨fun settings array bit => get_setAll {} settings array bit, ?_⟩
  intro n m rules script i raw hstd hf
  obtain ⟨p, hp, hturn⟩ := m.turn_setBit hstd hf
  refine ⟨p, hp, hturn, ?_⟩
  intro hflip n' m' script' i' raw' hsession hf' hp' array bit
  obtain ⟨p', hp'', hturn'⟩ := m'.turn_setBit hstd hf'
  obtain rfl : p' = p := Except.ok.inj (hp''.symm.trans hp')
  have hfirst := (hturn _ (.flip hflip)).2.bit_eq
  have hsecond := (hturn' _ (.flip hflip)).2.bit_eq
  rw [hsession] at hsecond
  by_cases h : array = p'.array ∧ bit = p'.bit
  -- the second flip finds the flag as the first has left it
  · obtain ⟨rfl, rfl⟩ := h
    rw [hsecond, hfirst, if_pos ⟨rfl, rfl⟩, if_pos ⟨rfl, rfl⟩, Bool.not_not]
  · rw [hsecond, if_neg h, hfirst, if_neg h]

/-- The first flag of the second word is flipped twice, and the last flag of the first word stays as
it is. Written flags that share a word, or the place in a word, do not meet. -/
theorem Flags.refine_table_flipped :
    let script : Script := ⟨#[0x22, 2, 32, 7, 0x22, 2, 32, 7], [0], by decide⟩
    let m := ((Machine.idle 1 ({} : Stage)).start {} script 0 0).1
    let once := m.turn {} script 0 .setBit #[0x22, 2, 32, 7]
    let twice := once.1.turn {} script 0 .setBit #[0x22, 2, 32, 7]
    (({} : Flags).setAll [⟨0, 31, true⟩, ⟨0, 63, true⟩, ⟨0, 30, true⟩, ⟨0, 31, false⟩]).get 0 63 =
        true ∧
      once.1.host.session.bit 2 32 = true ∧ once.1.host.session.bit 2 31 = false ∧
      twice.1.host.session.bit 2 32 = false := by
  intro script m once twice
  have hf : script.fetch (m.pool.thread 0).pc = .ok (.setBit, #[0x22, 2, 32, 7]) := by
    decide +kernel
  have hf' : script.fetch (once.1.pool.thread 0).pc = .ok (.setBit, #[0x22, 2, 32, 7]) := by
    decide +kernel
  have hp : decode SetBit #[0x22, 2, 32, 7] = .ok ⟨2, 32, 7⟩ := rfl
  obtain ⟨hsettings, hturns⟩ := refine_table
  obtain ⟨p, hp', hturn, hrestored⟩ := hturns m {} script 0 _ rfl hf
  obtain rfl : p = ⟨2, 32, 7⟩ := Except.ok.inj (hp'.symm.trans hp)
  have hbits := (hturn true (.flip rfl)).2.bit_eq
  exact ⟨(hsettings _ 0 63).trans rfl, hbits 2 32, hbits 2 31,
    hrestored rfl once.1 script 0 _ rfl hf' hp 2 32⟩

end RoomScript
