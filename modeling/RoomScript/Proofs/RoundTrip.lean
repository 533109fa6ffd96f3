import RoomScript.Proofs.Grammar
import RoomScript.Proofs.Statements

/-!
# What is assembled is what is decoded

A step writes its instruction at the end of the code, and most of that instruction is never touched
again: later steps append, and those that close a block fill in the length of its header. So the
question is which bytes can still change. They are the lengths of the open headers, and a header
that is opened later stands behind everything written so far.

`Builder.Extends` says this of two moments in the writing of a script. It holds of every step,
mistakes included, and from one moment to any later one. An instruction is thus found in the
finished script as it was written, up to the length of its own block, and is decoded to what the
step was given.

**Main statements.** `Builder.Extends.apply`: a step changes nothing but the lengths of open
headers. `Builder.byte_grow`: which bytes of an instruction are in the finished script.
`Builder.read_back`: every step with operands is read back from the script it was built into.
-/

namespace RoomScript

open Layout Payload

/-! ### Bytes that can still change -/

/-- The address of the header that an open block fills in; the default arm has no length. -/
def Opening.header? : Opening → Option Nat
  | .ifBlock start | .elseBlock start | .forLoop start | .switch start | .caseArm start =>
    some start
  | .defaultCase => none

namespace Builder

variable {b b' b'' : Builder}

/-- The addresses of the open headers. -/
def headers (b : Builder) : List Nat := b.opened.filterMap Opening.header?

/-- The address is in the length of an open header. -/
def Blank (b : Builder) (i : Nat) : Prop :=
  ∃ start ∈ b.headers, i = lengthField start ∨ i = lengthField start + 1

/-- A closed block has its length filled in, before or after it is taken off. -/
theorem patch_closeBlock (b : Builder) (field length : Nat) :
    b.closeBlock.patch field length = (b.patch field length).closeBlock := by
  unfold patch
  split <;> rfl

theorem emit_closeBlock (b : Builder) (op : Opcode) (payload : List UInt8) :
    b.closeBlock.emit op payload = (b.emit op payload).closeBlock := by
  unfold emit
  split <;> rfl

/-- **What becomes of the code between two moments**: it grows, all but the lengths of open headers
stays, and a header that is opened stands behind what was there. -/
structure Extends (b b' : Builder) : Prop where
  size_le : b.code.size ≤ b'.code.size
  byte : ∀ i < b.code.size, ¬ b.Blank i → b'.code[i]? = b.code[i]?
  header : ∀ start ∈ b'.headers,
    start ∈ b.headers ∨ (b.code.size ≤ start ∧ start + 4 ≤ b'.code.size)

namespace Extends

theorem refl (b : Builder) : Extends b b :=
  ⟨Nat.le_refl _, fun _ _ _ => rfl, fun _ h => .inl h⟩

/-- What is not blank stays so. -/
theorem not_blank (h : Extends b b') {i : Nat} (hi : i < b.code.size) (hblank : ¬ b.Blank i) :
    ¬ b'.Blank i := by
  rintro ⟨start, hstart, hfield⟩
  rcases h.header start hstart with hold | ⟨hle, -⟩
  · exact hblank ⟨start, hold, hfield⟩
  · simp only [lengthField] at hfield
    omega

theorem trans (h : Extends b b') (h' : Extends b' b'') : Extends b b'' := by
  refine ⟨Nat.le_trans h.size_le h'.size_le, ?_, ?_⟩
  · intro i hi hblank
    rw [h'.byte i (Nat.lt_of_lt_of_le hi h.size_le) (h.not_blank hi hblank), h.byte i hi hblank]
  · intro start hstart
    rcases h'.header start hstart with hold | ⟨hle, hin⟩
    · rcases h.header start hold with hold | ⟨hle, hin⟩
      · exact .inl hold
      · exact .inr ⟨hle, Nat.le_trans hin h'.size_le⟩
    · exact .inr ⟨Nat.le_trans h.size_le hle, hin⟩

/-- Nothing happens to the code, and no header is opened. -/
theorem of_code (hcode : b'.code = b.code) (hopen : ∀ start ∈ b'.headers, start ∈ b.headers) :
    Extends b b' :=
  ⟨Nat.le_of_eq (by rw [hcode]), fun _ _ _ => by rw [hcode], fun start h => .inl (hopen start h)⟩

theorem fail (b : Builder) (e : BuildError) : Extends b (b.fail e) := of_code rfl fun _ h => h

theorem closeBlock (b : Builder) : Extends b b.closeBlock := by
  refine of_code rfl fun start h => ?_
  rw [headers, List.mem_filterMap] at h ⊢
  obtain ⟨o, ho, hstart⟩ := h
  exact ⟨o, List.mem_of_mem_tail ho, hstart⟩

theorem put (b : Builder) (bytes : List UInt8) : Extends b (b.put bytes) := by
  refine ⟨by rw [size_put]; exact Nat.le_add_right _ _, ?_, fun _ h => .inl h⟩
  intro i hi _
  simp only [Builder.put]
  rw [← Array.getElem?_toList, Array.toList_appendList, List.getElem?_append_left (by simpa),
    Array.getElem?_toList]

/-- A block is opened whose header stands behind what was there. -/
theorem openBlock (h : Extends b b') {o : Opening}
    (ho : ∀ start ∈ o.header?, b.code.size ≤ start ∧ start + 4 ≤ b'.code.size) :
    Extends b (b'.openBlock o) := by
  refine ⟨h.size_le, h.byte, ?_⟩
  intro start hstart
  rw [headers, Builder.openBlock, List.filterMap_cons] at hstart
  split at hstart
  · exact h.header start hstart
  · next hheader =>
    rcases List.mem_cons.mp hstart with rfl | hold
    · exact .inr (ho _ hheader)
    · exact h.header start hold

theorem emit (b : Builder) (op : Opcode) (payload : List UInt8) :
    Extends b (b.emit op payload) := by
  unfold Builder.emit
  split
  · exact fail b _
  · exact put b _

theorem patch {start : Nat} (hstart : start ∈ b.headers) (length : Nat) :
    Extends b (b.patch (lengthField start) length) := by
  unfold Builder.patch
  split
  · refine ⟨Nat.le_of_eq (by simp), ?_, fun _ h => .inl h⟩
    intro i _ hblank
    have hlow : lengthField start ≠ i := fun h => hblank ⟨start, hstart, .inl h.symm⟩
    have hhigh : lengthField start + 1 ≠ i := fun h => hblank ⟨start, hstart, .inr h.symm⟩
    simp only [Array.getElem?_setIfInBounds_ne hlow, Array.getElem?_setIfInBounds_ne hhigh]
  · exact fail b _

/-- The innermost block is closed. -/
theorem close {start : Nat} (hstart : start ∈ b.headers) (length : Nat) :
    Extends b (b.closeBlock.patch (lengthField start) length) := by
  rw [patch_closeBlock]
  exact (patch hstart length).trans (closeBlock _)

theorem finish {start : Nat} (hstart : start ∈ b.headers) (header closer : Opcode) :
    Extends b (b.finish start header closer) := by
  unfold Builder.finish
  -- the header is still open while the closing instruction is put down
  rw [emit_closeBlock]
  have hstart' : start ∈ (b.emit closer []).headers := by rwa [headers, opened_emit]
  exact (emit b closer []).trans (close hstart' _)

theorem closeArm (b : Builder) : Extends b b.closeArm := by
  unfold Builder.closeArm
  split
  · next start rest hopen => exact close (by simp [headers, hopen, Opening.header?]) _
  · exact closeBlock b
  · exact refl b

theorem write (b : Builder) (s : Step) : Extends b (b.write s) := by
  unfold Builder.write
  split
  · exact emit b _ _
  · exact refl b

/-- The instruction of a step that opens a block is its header. -/
theorem openBlock_write (b : Builder) (o : Opening) (s : Step) {op : Opcode} {payload : List UInt8}
    (hs : s.isNamed = true) (he : s.emission? = some (op, payload))
    (ho : o.header? = none ∨ o.header? = some b.code.size ∧ 4 ≤ op.size) :
    Extends b ((b.openBlock o).write s) := by
  have hfits := Step.emission?_fits hs he
  have hwrite : (b.openBlock o).write s = (b.put (op.bytes payload)).openBlock o := by
    simp only [Builder.write, he, emit_of_fits _ op payload hfits]
    rfl
  rw [hwrite]
  -- a header that is still to be filled in lies within the bytes that are put
  refine (put b _).openBlock fun start hstart => ?_
  rw [size_put, Opcode.length_bytes hfits]
  rcases ho with ho | ⟨ho, hsize⟩
  · rw [ho] at hstart
    cases hstart
  · obtain rfl : b.code.size = start := Option.some.inj (ho.symm.trans hstart)
    exact ⟨Nat.le_refl _, Nat.add_le_add_left hsize _⟩

theorem elseStart (b : Builder) : Extends b b.elseStart := by
  unfold Builder.elseStart
  split
  · next start rest hopen =>
    have hstart : start ∈ b.headers := by simp [headers, hopen, Opening.header?]
    have hclose := close hstart (b.code.size - start)
    -- filling in the length leaves the end of the code where it was
    have hsize := size_patch b.closeBlock (lengthField start) (b.code.size - start)
    refine hclose.trans (openBlock_write _ (.elseBlock b.code.size) .elseStart rfl rfl ?_)
    exact .inr ⟨congrArg some hsize.symm, by decide⟩
  · exact (closeBlock b).trans (fail _ _)

theorem endIf (b : Builder) : Extends b b.endIf := by
  unfold Builder.endIf
  split
  · next start rest hopen => exact finish (by simp [headers, hopen, Opening.header?]) _ _
  · next start rest hopen => exact close (by simp [headers, hopen, Opening.header?]) _
  · exact (closeBlock b).trans (fail _ _)

theorem forEnd (b : Builder) : Extends b b.forEnd := by
  unfold Builder.forEnd
  split
  · next start rest hopen => exact finish (by simp [headers, hopen, Opening.header?]) _ _
  · exact (closeBlock b).trans (fail _ _)

theorem endSwitch (b : Builder) : Extends b b.endSwitch := by
  unfold Builder.endSwitch
  refine (closeArm b).trans ?_
  simp only
  split
  · next start rest hopen => exact finish (by simp [headers, hopen, Opening.header?]) _ _
  · exact (closeBlock _).trans (fail _ _)

/-- **A step changes nothing but the lengths of open headers.** -/
theorem apply (b : Builder) (s : Step) : Extends b (b.apply s) := by
  have hwrite := write b s
  cases s with
  | entry => exact of_code rfl fun _ h => h
  | raw bytes =>
    rw [b.apply_free ⟨.raw bytes, rfl⟩ trivial]
    exact (put_eq_grow b bytes.toList) ▸ put b bytes.toList
  | ifStart =>
    exact openBlock_write b (.ifBlock b.code.size) .ifStart rfl rfl (.inr ⟨rfl, by decide⟩)
  | forLoop count =>
    exact openBlock_write b (.forLoop b.code.size) (.forLoop count) rfl rfl
      (.inr ⟨rfl, by decide⟩)
  | switch var =>
    exact openBlock_write b (.switch b.code.size) (.switch var) rfl rfl (.inr ⟨rfl, by decide⟩)
  | caseArm value =>
    -- the header stands behind the arm that is closed first
    refine (closeArm b).trans ?_
    exact openBlock_write _ (.caseArm b.closeArm.code.size) (.caseArm value) rfl rfl
      (.inr ⟨rfl, by decide⟩)
  | defaultCase =>
    exact (closeArm b).trans (openBlock_write _ .defaultCase .defaultCase rfl rfl (.inl rfl))
  | elseStart => exact elseStart b
  | endIf => exact endIf b
  | forEnd => exact forEnd b
  | endSwitch => exact endSwitch b
  | _ => exact hwrite

theorem foldl (b : Builder) (steps : List Step) : Extends b (steps.foldl Builder.apply b) := by
  induction steps generalizing b with
  | nil => exact refl b
  | cons s steps ih => exact (apply b s).trans (ih _)

end Extends

/-! ### What a step has written -/

section Written

variable {bytes : List UInt8} {es : List Nat} {o : Opening}

/-- Behind the open headers nothing is blank. -/
theorem not_blank_behind (hb : Extends {} b) (j : Nat) : ¬ b.Blank (b.code.size + j) := by
  rintro ⟨start, hstart, hfield⟩
  rcases hb.header start hstart with hnone | ⟨-, hin⟩
  · exact nomatch hnone
  · simp only [lengthField] at hfield
    omega

/-- A header that is just being opened is blank in its length alone. -/
theorem not_blank_open (hb : Extends {} b) (ho : o.header? = some b.code.size) {j : Nat}
    (hlow : j ≠ 2) (hhigh : j ≠ 3) : ¬ (b.openBlock o).Blank (b.code.size + j) := by
  rintro ⟨start, hstart, hfield⟩
  rw [headers, openBlock, List.filterMap_cons, ho] at hstart
  rcases List.mem_cons.mp hstart with rfl | hold
  · simp only [lengthField] at hfield
    omega
  · exact not_blank_behind hb j ⟨start, hold, hfield⟩

/-- Bytes that are put down stay, unless they are blank. -/
theorem byte_grow (h : Extends (b.grow bytes es) b') {j : Nat} (hj : j < bytes.length)
    (hblank : ¬ b.Blank (b.code.size + j)) : b'.code[b.code.size + j]? = bytes[j]? := by
  rw [h.byte _ (by rw [size_grow]; omega) hblank]
  simp only [grow]
  rw [← Array.getElem?_toList, Array.toList_appendList, List.getElem?_append_right (by simp)]
  simp

end Written

end Builder

/-- Bytes that are found one by one are held. -/
theorem Script.holds_of_bytes {script : Script} {a : Nat} {bytes : List UInt8}
    (ha : a ≤ script.data.size) (h : ∀ j < bytes.length, script.data[a + j]? = bytes[j]?) :
    script.Holds a bytes := by
  -- the script is cut at both ends of the bytes
  have hbytes : (script.data.toList.drop a).take bytes.length = bytes := by
    apply List.ext_getElem?
    intro j
    rw [List.getElem?_take, List.getElem?_drop, Array.getElem?_toList]
    split
    · next hj => exact h j hj
    · next hj => exact (List.getElem?_eq_none (Nat.le_of_not_lt hj)).symm
  have hrest : bytes ++ (script.data.toList.drop a).drop bytes.length =
      script.data.toList.drop a := by
    conv => lhs; arg 1; rw [← hbytes]
    exact List.take_append_drop _ _
  refine ⟨script.data.toList.take a, (script.data.toList.drop a).drop bytes.length, ?_, ?_⟩
  · rw [List.append_assoc, hrest, List.take_append_drop]
  · rw [List.length_take, Array.length_toList, Nat.min_eq_left ha]

namespace Script.Holds

variable {script : Script} {b b' : Builder}

/-- **What a step puts down is in the finished script.** -/
theorem of_grow {bytes : List UInt8} {es : List Nat} (hdata : script.data = b'.code)
    (hb : Builder.Extends {} b) (h : Builder.Extends (b.grow bytes es) b') :
    script.Holds b.code.size bytes := by
  have hle := h.size_le
  rw [Builder.size_grow] at hle
  refine Script.holds_of_bytes (by rw [hdata]; omega) fun j hj => ?_
  rw [hdata]
  exact Builder.byte_grow h hj (Builder.not_blank_behind hb j)

/-- **The header of a block is in the finished script**, with some length. -/
theorem of_header {o : Opening} (op : Opcode) (first : UInt8) (more : List UInt8)
    (hdata : script.data = b'.code) (hb : Builder.Extends {} b)
    (ho : o.header? = some b.code.size) (hmore : more.length + 4 ≤ op.size)
    (h : Builder.Extends ((b.openBlock o).grow (op.header first 0 more) []) b') :
    ∃ length, script.Holds b.code.size (op.header first length more) := by
  have hlen := fun n => op.length_header first n more hmore
  have hle := h.size_le
  rw [Builder.size_grow, hlen] at hle
  change b.code.size + op.size ≤ b'.code.size at hle
  -- whatever the length has become, it is some word
  obtain ⟨lo, hlo⟩ : ∃ lo, b'.code[b.code.size + 2]? = some lo :=
    ⟨_, Array.getElem?_eq_getElem (by omega)⟩
  obtain ⟨hi, hhi⟩ : ∃ hi, b'.code[b.code.size + 3]? = some hi :=
    ⟨_, Array.getElem?_eq_getElem (by omega)⟩
  refine ⟨(word lo hi).toNat, Script.holds_of_bytes (by rw [hdata]; omega) fun j hj => ?_⟩
  have hkept : j ≠ 2 → j ≠ 3 → b'.code[b.code.size + j]? = (op.header first 0 more)[j]? := by
    intro hlow hhigh
    exact Builder.byte_grow h (by rw [hlen] at hj ⊢; exact hj)
      (Builder.not_blank_open hb ho hlow hhigh)
  have hfield : ∀ w, op.header first w more = op.toByte :: first :: wordBytes (UInt16.ofNat w) ++
      (more ++ List.replicate (op.size - 1 - (more.length + 3)) 0) := by
    intro w
    simp [Opcode.header, Opcode.bytes, wordBytes]
  rw [hdata, hfield, UInt16.ofNat_toNat, wordBytes_word]
  rw [hfield] at hkept
  rcases j with _ | _ | _ | _ | j
  · exact hkept (by decide) (by decide)
  · exact hkept (by decide) (by decide)
  · exact hlo
  · exact hhi
  · exact hkept (by omega) (by omega)

end Script.Holds

/-! ### Reading steps back -/

/-- The instruction at an address has this opcode, and its payload says this. -/
def Script.Reads {α : Type} [Payload α] (script : Script) (a : Nat) (op : Opcode) (p : α) : Prop :=
  ∃ raw, script.fetch a = .ok (op, raw) ∧ decode α raw = .ok p

/-- **A step is read back at an address**: the instruction there says what the step was given. The
length of a block is not given to the step that opens it, and a sleep can be entered at its second
byte as well. -/
def Step.ReadBack (script : Script) (a : Nat) : Step → Prop
  | .evtExec thread event =>
    script.Reads a .evtExec (⟨thread, Opcode.gosub.toByte, event⟩ : EvtExec)
  | .sleep ticks =>
    script.Reads a .sleep (⟨ticks⟩ : Sleep) ∧ script.Reads (a + 1) .sleeping (⟨ticks⟩ : Sleeping)
  | .forLoop count => ∃ length, script.Reads a .forLoop (⟨length, count⟩ : ForLoop)
  | .switch var => ∃ length, script.Reads a .switch (⟨var, length⟩ : Switch)
  | .caseArm value => ∃ length, script.Reads a .caseArm (⟨length, value⟩ : CaseArm)
  | .goto offset => script.Reads a .goto (⟨-1, -1, offset⟩ : Goto)
  | .gosub event => script.Reads a .gosub (⟨event⟩ : Gosub)
  | .check array bit value => script.Reads a .check (⟨array, bit, value⟩ : Check)
  | .setBit array bit operation => script.Reads a .setBit (⟨array, bit, operation⟩ : SetBit)
  | .compare var operation value => script.Reads a .compare (⟨var, operation, value⟩ : Compare)
  | .save var value => script.Reads a .save (⟨var, value⟩ : Save)
  | .copy dest source => script.Reads a .copy (⟨dest, source⟩ : Copy)
  | .calculate operation var value =>
    script.Reads a .calculate (⟨operation, var, value⟩ : Calculate)
  | .calculateFrom operation var source =>
    script.Reads a .calculateFrom (⟨operation, var, source⟩ : CalculateFrom)
  | .cutChg camera => script.Reads a .cutChg (⟨camera⟩ : CutChange)
  | .workSet component index => script.Reads a .workSet (⟨component, index⟩ : WorkSelect)
  | .posSet x y z => script.Reads a .posSet (⟨x, y, z⟩ : PosSet)
  | .memberSet member value => script.Reads a .memberSet (⟨member, value⟩ : MemberSet)
  | .scaIdSet id flag => script.Reads a .scaIdSet (⟨id, flag⟩ : CollisionSet)
  | .instruction op payload => script.fetch a = .ok (op, (op.bytes payload).toArray)
  | .raw bytes => script.Holds a bytes.toList
  -- nothing was given to the others
  | _ => True

theorem decode_sleep (ticks : UInt16) :
    decode Sleep (Opcode.sleep.bytes (Opcode.sleeping.toByte :: wordBytes ticks)).toArray =
      .ok ⟨ticks⟩ := by
  have h : decode Sleep (Opcode.sleep.bytes (Opcode.sleeping.toByte :: wordBytes ticks)).toArray =
    .ok ⟨word (low ticks) (high ticks)⟩ := rfl
  rw [h, word_low_high]

theorem decode_sleeping (ticks : UInt16) :
    decode Sleeping (Opcode.sleeping.bytes (wordBytes ticks)).toArray = .ok ⟨ticks⟩ := by
  have h : decode Sleeping (Opcode.sleeping.bytes (wordBytes ticks)).toArray =
    .ok ⟨word (low ticks) (high ticks)⟩ := rfl
  rw [h, word_low_high]

theorem Script.Reads.of_holds {α : Type} [Payload α] {script : Script} {a : Nat} {op : Opcode}
    {payload : List UInt8} {p : α} (h : script.Holds a (op.bytes payload))
    (hfits : payload.length + 1 ≤ op.size) (hp : decode α (op.bytes payload).toArray = .ok p) :
    script.Reads a op p :=
  ⟨_, fetch_of_holds op payload hfits h, hp⟩

theorem Script.Reads.of_header {α : Type} [Payload α] {script : Script} {a : Nat} {op : Opcode}
    {first : UInt8} {more : List UInt8} {length : Nat} {p : α}
    (h : script.Holds a (op.header first length more)) (hmore : more.length + 4 ≤ op.size)
    (hp : decode α (op.header first length more).toArray = .ok p) : script.Reads a op p :=
  ⟨_, fetch_header op more hmore h, hp⟩

/-- A step that opens and closes nothing is read back from its bytes. -/
theorem Step.readBack_of_holds {s : Step} (hs : s.isFree = true) {script : Script} {a : Nat}
    (h : script.Holds a s.bytes) (hpay : s.PayloadFits) : s.ReadBack script a := by
  have hfits : ∀ {op payload}, s.emission? = some (op, payload) → payload.length + 1 ≤ op.size :=
    hpay.emission
  cases s with
  | ifStart | elseStart | endIf | forLoop | forEnd | switch | caseArm | defaultCase | endSwitch =>
    exact nomatch hs
  | entry | nop | evtEnd | breakLoop => trivial
  | raw bytes => exact h
  | instruction op payload => exact Script.fetch_of_holds op payload (hfits rfl) h
  | sleep ticks =>
    -- its second byte starts the instruction that waits, over the same count
    have hsplit : script.Holds a
      ([Opcode.sleep.toByte] ++ Opcode.sleeping.bytes (wordBytes ticks)) := h
    exact ⟨.of_holds h (hfits rfl) (decode_sleep ticks),
      .of_holds hsplit.right (Nat.le_refl 3) (decode_sleeping ticks)⟩
  | evtExec thread event => exact .of_holds h (hfits rfl) rfl
  | goto offset => exact .of_holds h (hfits rfl) (decode_goto offset)
  | gosub event => exact .of_holds h (hfits rfl) rfl
  | check array bit value => exact .of_holds h (hfits rfl) (decode_check array bit value)
  | setBit array bit operation => exact .of_holds h (hfits rfl) (decode_setBit array bit operation)
  | compare var operation value =>
    exact .of_holds h (hfits rfl) (decode_compare var operation value)
  | save var value => exact .of_holds h (hfits rfl) (decode_save var value)
  | copy dest source => exact .of_holds h (hfits rfl) (decode_copy dest source)
  | calculate operation var value =>
    exact .of_holds h (hfits rfl) (decode_calculate operation var value)
  | calculateFrom operation var source =>
    exact .of_holds h (hfits rfl) (decode_calculateFrom operation var source)
  | cutChg camera => exact .of_holds h (hfits rfl) (decode_cutChg camera)
  | workSet component index => exact .of_holds h (hfits rfl) (decode_workSet component index)
  | posSet x y z => exact .of_holds h (hfits rfl) (decode_posSet x y z)
  | memberSet member value => exact .of_holds h (hfits rfl) (decode_memberSet member value)
  | scaIdSet id flag => exact .of_holds h (hfits rfl) (decode_scaIdSet id flag)

/-- **What is assembled is what is decoded.** Every step with operands is read back from the script
it was built into, at the address where it was written, whatever steps come after it. -/
theorem Builder.read_back {before after : List Step} {s : Step} {script : Script}
    (h : (run (before ++ s :: after)).build = .ok script) :
    s.ReadBack script (run before).code.size := by
  obtain ⟨⟨herr, -⟩, hdata, -⟩ := build_eq_ok h
  have hrun : run (before ++ s :: after) = after.foldl apply ((run before).apply s) := by
    rw [run, List.foldl_append]
    rfl
  rw [hrun] at herr hdata
  have hbefore : Extends {} (run before) := .foldl {} before
  have hafter := Extends.foldl ((run before).apply s) after
  have hpay : s.PayloadFits := payloadFits_of_error (error_foldl herr)
  by_cases hfree : s.isFree = true
  · -- no block is opened, so nothing of the instruction is blank
    rw [apply_free _ ⟨s, hfree⟩ hpay] at hafter hdata
    exact Step.readBack_of_holds hfree (.of_grow hdata hbefore hafter) hpay
  -- a header is read back with whatever has been filled in for its length
  cases s with
  | forLoop count =>
    obtain ⟨length, hholds⟩ := Script.Holds.of_header .forLoop 0 (wordBytes count) hdata hbefore
      rfl (Nat.le_refl 6) hafter
    exact ⟨_, .of_header hholds (Nat.le_refl 6) (decode_forLoop length count)⟩
  | switch var =>
    obtain ⟨length, hholds⟩ := Script.Holds.of_header .switch var [] hdata hbefore rfl (by decide)
      hafter
    exact ⟨_, .of_header hholds (by decide) (decode_switch length var)⟩
  | caseArm value =>
    -- the arm in front of it is closed first, which leaves the address as it was
    obtain ⟨length, hholds⟩ := Script.Holds.of_header .caseArm 0 (wordBytes value) hdata
      (hbefore.trans (.closeArm _)) rfl (Nat.le_refl 6) hafter
    rw [size_closeArm] at hholds
    exact ⟨_, .of_header hholds (Nat.le_refl 6) (decode_caseArm length value)⟩
  | ifStart | elseStart | endIf | forEnd | defaultCase | endSwitch => trivial
  | _ => exact absurd rfl hfree

/-- An arm whose body holds a loop, and which the next arm closes. -/
theorem Builder.read_back_arm :
    ∃ script, (run ([.switch 3] ++ .caseArm 258 :: [.forLoop 2, .sleep 300, .forEnd, .caseArm 5,
        .save 1 (-2), .endSwitch, .evtEnd])).build = .ok script ∧
      ∃ length, script.Reads 4 .caseArm (⟨length, 258⟩ : CaseArm) := by
  obtain ⟨script, hbuild⟩ := (build_isOk_iff (run ([.switch 3] ++ .caseArm 258 ::
    [.forLoop 2, .sleep 300, .forEnd, .caseArm 5, .save 1 (-2), .endSwitch, .evtEnd]))).mpr
      (by decide)
  exact ⟨script, hbuild, read_back hbuild⟩

end RoomScript
