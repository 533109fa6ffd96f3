/-!
# Fixed-width layouts

An instruction's payload is a row of fields of known width. A `Layout α` says how many bytes a value
takes and how it is read off exactly that many, so whether a value can be read depends on the number
of bytes at hand and on nothing else, and bytes beyond the width cannot matter. Layouts are put
together with the applicative operators: `Mk <$> u8 <*> i16` reads a byte and then a signed word.

**Main statements.** `Layout.ofBytes_eq_none_iff`: reading after the opcode byte fails exactly when
bytes are missing. `Layout.word_low_high` and `Layout.wordBytes_word`: a word is read back from its
two bytes, and has the bytes it was read from.
-/

namespace RoomScript

/-- A run of bytes: a script's code, a blob, or one instruction. -/
abbrev Bytes := Array UInt8

/-- How a value is laid out in bytes: its width, and its value for any bytes of that width. -/
structure Layout (α : Type) where
  width : Nat
  read : (Fin width → UInt8) → α

namespace Layout

/-! ### Words -/

/-- The word of a low and a high byte. -/
def word (lo hi : UInt8) : UInt16 := UInt16.ofNat (lo.toNat + 256 * hi.toNat)

/-- The low byte of a word. -/
def low (w : UInt16) : UInt8 := UInt8.ofNat (w.toNat % 256)

/-- The high byte of a word. -/
def high (w : UInt16) : UInt8 := UInt8.ofNat (w.toNat / 256)

/-- The bytes of a word, low byte first. -/
def wordBytes (w : UInt16) : List UInt8 := [low w, high w]

/-- The bytes of a signed word, low byte first. -/
def signedBytes (v : Int16) : List UInt8 := wordBytes v.toUInt16

@[simp] theorem word_low_high (w : UInt16) : word (low w) (high w) = w := by
  have hw : w.toNat < 65536 := w.toNat_lt
  apply UInt16.toNat_inj.mp
  simp only [word, low, high, UInt16.toNat_ofNat', UInt8.toNat_ofNat']
  omega

theorem toNat_word (lo hi : UInt8) : (word lo hi).toNat = lo.toNat + 256 * hi.toNat := by
  have hlo := lo.toNat_lt
  have hhi := hi.toNat_lt
  rw [word, UInt16.toNat_ofNat_of_lt' (show lo.toNat + 256 * hi.toNat < 65536 by omega)]

/-- A word has the bytes it is made of. -/
theorem wordBytes_word (lo hi : UInt8) : wordBytes (word lo hi) = [lo, hi] := by
  have hlo := lo.toNat_lt
  have hhi := hi.toNat_lt
  have hlow : low (word lo hi) = lo := by
    apply UInt8.toNat_inj.mp
    rw [low, toNat_word, UInt8.toNat_ofNat']
    omega
  have hhigh : high (word lo hi) = hi := by
    apply UInt8.toNat_inj.mp
    rw [high, toNat_word, UInt8.toNat_ofNat']
    omega
  rw [wordBytes, hlow, hhigh]

/-! ### Fields -/

/-- One byte. -/
def u8 : Layout UInt8 := ⟨1, fun b => b 0⟩

/-- One byte, signed. -/
def i8 : Layout Int8 := ⟨1, fun b => (b 0).toInt8⟩

/-- One word. -/
def u16 : Layout UInt16 := ⟨2, fun b => word (b 0) (b 1)⟩

/-- One word, signed. -/
def i16 : Layout Int16 := ⟨2, fun b => (word (b 0) (b 1)).toInt16⟩

/-- Bytes that carry nothing. -/
def pad (n : Nat) : Layout Unit := ⟨n, fun _ => ()⟩

/-! ### Putting layouts together -/

instance : Functor Layout where
  map f l := ⟨l.width, fun b => f (l.read b)⟩

instance : Applicative Layout where
  pure a := ⟨0, fun _ => a⟩
  seq f l := ⟨f.width + (l ()).width, fun b =>
    f.read (fun i => b (i.castAdd _)) ((l ()).read fun i => b (i.natAdd _))⟩

/-- The `n` copies of a layout in a row. -/
def vector (n : Nat) (l : Layout α) : Layout (Vector α n) :=
  ⟨n * l.width, fun b => Vector.ofFn fun i => l.read fun j => b ⟨i * l.width + j, by
    have hi : i.val + 1 ≤ n := i.isLt
    have hj := j.isLt
    calc i * l.width + j < i * l.width + l.width := by omega
      _ = (i + 1) * l.width := by rw [Nat.add_mul, Nat.one_mul]
      _ ≤ n * l.width := Nat.mul_le_mul_right _ hi⟩⟩

@[simp] theorem width_map (f : α → β) (l : Layout α) : (f <$> l).width = l.width := rfl

/-! ### Reading an instruction's payload -/

/-- The value that follows the opcode byte of an instruction, if all its bytes are there. Bytes past
its width are not looked at. -/
def ofBytes (l : Layout α) (raw : Bytes) : Option α :=
  if h : 1 + l.width ≤ raw.size then
    some (l.read fun i => have := i.isLt; raw[1 + i.val])
  else none

theorem ofBytes_eq_none_iff (l : Layout α) (raw : Bytes) :
    l.ofBytes raw = none ↔ raw.size < 1 + l.width := by
  unfold ofBytes
  split <;> simp <;> omega

@[simp] theorem ofBytes_map (f : α → β) (l : Layout α) (raw : Bytes) :
    (f <$> l).ofBytes raw = (l.ofBytes raw).map f := by
  unfold ofBytes
  by_cases h : 1 + l.width ≤ raw.size
  · rw [dif_pos h, dif_pos (show 1 + (f <$> l).width ≤ raw.size from h)]; rfl
  · rw [dif_neg h, dif_neg (show ¬1 + (f <$> l).width ≤ raw.size from h)]; rfl

end Layout

end RoomScript
