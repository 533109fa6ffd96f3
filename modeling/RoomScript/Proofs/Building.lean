import RoomScript.Proofs.Nested

/-!
# One step of the assembler

What a step does to a script that is being written, part by part: the first mistake is kept, the
open blocks nest, and the code grows by what the step writes. Nothing is said here about steps that
belong together; that is a matter of the grammar they follow.

**Main statements.** `Builder.error_apply`: a step that leaves no mistake finds none.
`Builder.nests_apply`: what a step without a mistake does to the open blocks.
`Builder.size_apply`: and to the size of the code. `Builder.build_eq_ok`: what it takes for a script
to be finished.
-/

namespace RoomScript

open Layout

namespace Builder

/-! ### Steps that close a block -/

section Closing

variable (b : Builder)

theorem apply_elseStart : b.apply .elseStart = b.elseStart := rfl
theorem apply_endIf : b.apply .endIf = b.endIf := rfl
theorem apply_forEnd : b.apply .forEnd = b.forEnd := rfl
theorem apply_endSwitch : b.apply .endSwitch = b.endSwitch := rfl

end Closing

/-! ### Mistakes are kept -/

variable {b : Builder}

theorem error_fail (b : Builder) (e : BuildError) : (b.fail e).error ≠ none := by
  cases h : b.error <;> simp [fail, h]

theorem error_emit {op : Opcode} {payload : List UInt8} (h : (b.emit op payload).error = none) :
    b.error = none := by
  unfold emit at h
  split at h
  · exact absurd h (error_fail _ _)
  · exact h

theorem error_patch {field length : Nat} (h : (b.patch field length).error = none) :
    length < 65536 ∧ b.error = none := by
  unfold patch at h
  split at h
  · next hlt => exact ⟨hlt, h⟩
  · exact absurd h (error_fail _ _)

theorem error_closeArm (h : b.closeArm.error = none) : b.error = none := by
  unfold closeArm at h
  split at h
  · exact (error_patch h).2
  · exact h
  · exact h

theorem error_finish {start : Nat} {header closer : Opcode}
    (h : (b.finish start header closer).error = none) : b.error = none :=
  error_emit (b := b.closeBlock) (error_patch h).2

theorem error_write {s : Step} (h : (b.write s).error = none) : b.error = none := by
  unfold write at h
  split at h
  · exact error_emit h
  · exact h

/-! What the steps that close a block come to: without a mistake it was theirs to close. -/

theorem elseStart_cases (h : b.elseStart.error = none) :
    ∃ start rest, b.opened = .ifBlock start :: rest ∧
      b.elseStart = ((b.closeBlock.patch (lengthField start) (b.code.size - start)).openBlock
        (.elseBlock b.code.size)).emit .elseStart [] := by
  unfold elseStart at h ⊢
  simp only at h ⊢
  split at h
  · next start rest hopen =>
    rw [hopen]
    exact ⟨start, rest, rfl, rfl⟩
  · exact absurd h (error_fail _ _)

theorem endIf_cases (h : b.endIf.error = none) :
    (∃ start rest, b.opened = .ifBlock start :: rest ∧ b.endIf = b.finish start .ifStart .endIf) ∨
    ∃ start rest, b.opened = .elseBlock start :: rest ∧
      b.endIf = b.closeBlock.patch (lengthField start) (b.code.size - start) := by
  unfold endIf at h ⊢
  split at h
  · next start rest hopen =>
    rw [hopen]
    exact .inl ⟨start, rest, rfl, rfl⟩
  · next start rest hopen =>
    rw [hopen]
    exact .inr ⟨start, rest, rfl, rfl⟩
  · exact absurd h (error_fail _ _)

theorem forEnd_cases (h : b.forEnd.error = none) :
    ∃ start rest, b.opened = .forLoop start :: rest ∧
      b.forEnd = b.finish start .forLoop .forEnd := by
  unfold forEnd at h ⊢
  split at h
  · next start rest hopen =>
    rw [hopen]
    exact ⟨start, rest, rfl, rfl⟩
  · exact absurd h (error_fail _ _)

/-- A switch is closed after the arm on top of it. -/
theorem endSwitch_cases (h : b.endSwitch.error = none) :
    ∃ start rest, b.closeArm.opened = .switch start :: rest ∧
      b.endSwitch = b.closeArm.finish start .switch .endSwitch := by
  unfold endSwitch at h ⊢
  simp only at h ⊢
  split at h
  · next start rest hopen =>
    rw [hopen]
    exact ⟨start, rest, rfl, rfl⟩
  · exact absurd h (error_fail _ _)

/-- A switch is closed without a mistake only if its last arm is. -/
theorem error_endSwitch (h : b.endSwitch.error = none) : b.closeArm.error = none := by
  obtain ⟨start, rest, -, heq⟩ := endSwitch_cases h
  rw [heq] at h
  exact error_finish h

/-- A step that leaves no mistake finds none. -/
theorem error_apply {s : Step} (h : (b.apply s).error = none) : b.error = none := by
  cases s with
  | entry | raw => exact h
  | ifStart | forLoop | switch => exact error_write (b := b.openBlock _) h
  | elseStart =>
    rw [apply_elseStart] at h
    obtain ⟨start, rest, -, heq⟩ := elseStart_cases h
    rw [heq] at h
    have hopen := error_emit h
    exact (error_patch (b := b.closeBlock) hopen).2
  | endIf =>
    rw [apply_endIf] at h
    obtain ⟨start, rest, -, heq⟩ | ⟨start, rest, -, heq⟩ := endIf_cases h <;> rw [heq] at h
    · exact error_finish h
    · exact (error_patch (b := b.closeBlock) h).2
  | forEnd =>
    rw [apply_forEnd] at h
    obtain ⟨start, rest, -, heq⟩ := forEnd_cases h
    rw [heq] at h
    exact error_finish h
  | caseArm | defaultCase =>
    exact error_closeArm (error_write (b := b.closeArm.openBlock _) h)
  | endSwitch => exact error_closeArm (error_endSwitch h)
  | _ => exact error_write h

/-- Steps that leave no mistake find none. -/
theorem error_foldl {steps : List Step} (h : (steps.foldl apply b).error = none) :
    b.error = none := by
  induction steps generalizing b with
  | nil => exact h
  | cons s steps ih => exact error_apply (ih h)

/-! ### What the parts of a step write -/

/-- Appends bytes. -/
def put (b : Builder) (bytes : List UInt8) : Builder := { b with code := b.code ++ bytes }

@[simp] theorem size_put (b : Builder) (bytes : List UInt8) :
    (b.put bytes).code.size = b.code.size + bytes.length := by
  rw [put, ← Array.length_toList, Array.toList_appendList, List.length_append, Array.length_toList]

theorem emit_of_fits (b : Builder) (op : Opcode) (payload : List UInt8)
    (h : payload.length + 1 ≤ op.size) : b.emit op payload = b.put (op.bytes payload) :=
  if_neg (by omega)

end Builder

/-! ### Steps nest -/

/-- An open arm of a switch. -/
def Opening.isArm : Opening → Bool
  | .caseArm _ | .defaultCase => true
  | _ => false

/-- The number of bytes a step writes: the end of an else writes none. -/
def Step.width (s : Step) (opened : List Opening) : Nat :=
  match s, opened with
  | .endIf, .elseBlock _ :: _ => 0
  | .endIf, _ => Opcode.endIf.size
  | .forEnd, _ => Opcode.forEnd.size
  | .endSwitch, _ => Opcode.endSwitch.size
  | s, _ =>
    match s.emission? with
    | some (op, _) => op.size
    | none => 0

/-- **What a step does to the open blocks**, if it is no mistake. -/
inductive Step.Nests : Step → List Opening → List Opening → Prop
  | plain {s open_} (hs : s.isPlain = true ∨ s = .entry) : Nests s open_ open_
  | opensIf {a open_} : Nests .ifStart open_ (.ifBlock a :: open_)
  | opensElse {a a' open_} : Nests .elseStart (.ifBlock a :: open_) (.elseBlock a' :: open_)
  | closesIf {a open_} : Nests .endIf (.ifBlock a :: open_) open_
  | closesElse {a open_} : Nests .endIf (.elseBlock a :: open_) open_
  | opensLoop {a n open_} : Nests (.forLoop n) open_ (.forLoop a :: open_)
  | closesLoop {a open_} : Nests .forEnd (.forLoop a :: open_) open_
  | opensSwitch {a v open_} : Nests (.switch v) open_ (.switch a :: open_)
  | opensArm {o open_} (label : Option UInt16) (ho : o.isArm = true)
      (htop : ∀ o ∈ open_.head?, o.isArm = false) :
    Nests (Code.armStep label) open_ (o :: open_)
  | nextArm {o o' open_} (label : Option UInt16) (ho : o.isArm = true) (ho' : o'.isArm = true) :
    Nests (Code.armStep label) (o :: open_) (o' :: open_)
  | closesSwitch {a open_} : Nests .endSwitch (.switch a :: open_) open_
  | closesArms {a o open_} (ho : o.isArm = true) :
    Nests .endSwitch (o :: .switch a :: open_) open_

namespace Builder

variable {b : Builder}

@[simp] theorem opened_emit (b : Builder) (op : Opcode) (payload : List UInt8) :
    (b.emit op payload).opened = b.opened := by
  unfold emit
  split <;> rfl

@[simp] theorem opened_patch (b : Builder) (field length : Nat) :
    (b.patch field length).opened = b.opened := by
  unfold patch
  split <;> rfl

@[simp] theorem opened_write (b : Builder) (s : Step) : (b.write s).opened = b.opened := by
  unfold write
  split <;> simp

@[simp] theorem opened_finish (b : Builder) (start : Nat) (header closer : Opcode) :
    (b.finish start header closer).opened = b.opened.tail := by
  simp [finish, closeBlock]

/-- Closing an arm takes it off the open blocks, and does nothing else to them. -/
theorem opened_closeArm (b : Builder) :
    (∃ o, o.isArm = true ∧ b.opened = o :: b.closeArm.opened) ∨
      (b.closeArm.opened = b.opened ∧ ∀ o ∈ b.opened.head?, o.isArm = false) := by
  unfold closeArm
  rcases hopen : b.opened with _ | ⟨_ | _ | _ | _ | a | _, rest⟩
  case cons.caseArm => exact .inl ⟨.caseArm a, rfl, by simp [closeBlock, hopen]⟩
  case cons.defaultCase => exact .inl ⟨.defaultCase, rfl, by simp [closeBlock, hopen]⟩
  all_goals exact .inr ⟨hopen, by simp [Opening.isArm]⟩

end Builder

/-- An arm takes the place of the one before it, or is the first of its switch. -/
theorem Step.Nests.of_closeArm {b : Builder} {o : Opening} (label : Option UInt16)
    (ho : o.isArm = true) : Nests (Code.armStep label) b.opened (o :: b.closeArm.opened) := by
  rcases b.opened_closeArm with ⟨o', ho', hb⟩ | ⟨hb, htop⟩
  · rw [hb]
    exact .nextArm label ho' ho
  · rw [hb]
    exact .opensArm label ho htop

namespace Builder

variable {b : Builder}

/-- Named steps nest, unless they are a mistake. -/
theorem nests_apply {s : Step} (hs : s.isNamed = true) (h : (b.apply s).error = none) :
    s.Nests b.opened (b.apply s).opened := by
  cases s with
  | instruction | raw => exact nomatch hs
  | entry => exact .plain (.inr rfl)
  | ifStart => exact .opensIf
  | forLoop n => exact .opensLoop
  | switch v => exact .opensSwitch
  | elseStart =>
    rw [apply_elseStart] at h ⊢
    obtain ⟨start, rest, hopen, heq⟩ := elseStart_cases h
    rw [heq, hopen, opened_emit]
    simp only [openBlock, opened_patch, closeBlock, hopen, List.tail_cons]
    exact .opensElse
  | endIf =>
    rw [apply_endIf] at h ⊢
    obtain ⟨start, rest, hopen, heq⟩ | ⟨start, rest, hopen, heq⟩ := endIf_cases h
    · rw [heq, opened_finish, hopen]
      exact .closesIf
    · rw [heq, opened_patch, closeBlock, hopen]
      exact .closesElse
  | forEnd =>
    rw [apply_forEnd] at h ⊢
    obtain ⟨start, rest, hopen, heq⟩ := forEnd_cases h
    rw [heq, opened_finish, hopen]
    exact .closesLoop
  | caseArm v =>
    have hopen : (b.apply (.caseArm v)).opened =
      .caseArm b.closeArm.code.size :: b.closeArm.opened := rfl
    rw [hopen]
    exact .of_closeArm (some v) rfl
  | defaultCase =>
    have hopen : (b.apply .defaultCase).opened = .defaultCase :: b.closeArm.opened := rfl
    rw [hopen]
    exact .of_closeArm none rfl
  | endSwitch =>
    rw [apply_endSwitch] at h ⊢
    obtain ⟨start, rest, hopen, heq⟩ := endSwitch_cases h
    rw [heq, opened_finish, hopen, List.tail_cons]
    -- the switch is the innermost block, or the one around its last arm
    rcases b.opened_closeArm with ⟨o, ho, hb⟩ | ⟨hb, htop⟩
    · rw [hb, hopen]
      exact .closesArms ho
    · rw [← hb, hopen]
      exact .closesSwitch
  | _ =>
    change Step.Nests _ _ (b.write _).opened
    rw [opened_write]
    exact .plain (.inl rfl)

@[simp] theorem size_patch (b : Builder) (field length : Nat) :
    (b.patch field length).code.size = b.code.size := by
  unfold patch
  split
  · simp
  · rfl

@[simp] theorem size_closeArm (b : Builder) : b.closeArm.code.size = b.code.size := by
  unfold closeArm
  split
  · exact size_patch b.closeBlock _ _
  · rfl
  · rfl

theorem size_finish (b : Builder) (start : Nat) (header closer : Opcode) (h : 1 ≤ closer.size) :
    (b.finish start header closer).code.size = b.code.size + closer.size := by
  simp only [finish, size_patch, emit_of_fits b.closeBlock closer [] (by simp; omega),
    size_put, closer.length_bytes_nil]
  rfl

theorem size_write (b : Builder) {s : Step} (hs : s.isNamed = true) :
    (b.write s).code.size = b.code.size +
      match s.emission? with
      | some (op, _) => op.size
      | none => 0 := by
  unfold write
  cases he : s.emission? with
  | none => rfl
  | some e =>
    have hfits := Step.emission?_fits hs he
    simp only [emit_of_fits b _ _ hfits, size_put, Opcode.length_bytes hfits]

/-- Named steps write what their width says, unless they are a mistake. -/
theorem size_apply {s : Step} (hs : s.isNamed = true) (h : (b.apply s).error = none) :
    (b.apply s).code.size = b.code.size + s.width b.opened := by
  cases s with
  | instruction | raw => exact nomatch hs
  | entry => rfl
  | ifStart => exact size_write (b.openBlock _) rfl
  | forLoop | switch => exact size_write (b.openBlock _) rfl
  | elseStart =>
    rw [apply_elseStart] at h ⊢
    obtain ⟨start, rest, -, heq⟩ := elseStart_cases h
    rw [heq, emit_of_fits _ .elseStart [] (by decide), size_put]
    exact congrArg (· + _) (size_patch b.closeBlock _ _)
  | endIf =>
    rw [apply_endIf] at h ⊢
    -- the end of an else fills in a length, and that is all
    obtain ⟨start, rest, hopen, heq⟩ | ⟨start, rest, hopen, heq⟩ := endIf_cases h <;>
      rw [heq, hopen]
    · exact size_finish b _ _ _ (by decide)
    · exact size_patch b.closeBlock _ _
  | forEnd =>
    rw [apply_forEnd] at h ⊢
    obtain ⟨start, rest, -, heq⟩ := forEnd_cases h
    rw [heq]
    exact size_finish b _ _ _ (by decide)
  | caseArm v =>
    have hwrite := size_write (b.closeArm.openBlock (.caseArm b.closeArm.code.size))
      (s := .caseArm v) rfl
    exact hwrite.trans (congrArg (· + _) (size_closeArm b))
  | defaultCase =>
    have hwrite := size_write (b.closeArm.openBlock .defaultCase) (s := .defaultCase) rfl
    exact hwrite.trans (congrArg (· + _) (size_closeArm b))
  | endSwitch =>
    rw [apply_endSwitch] at h ⊢
    obtain ⟨start, rest, -, heq⟩ := endSwitch_cases h
    have hfinish := size_finish b.closeArm start .switch .endSwitch (by decide)
    rw [heq]
    exact hfinish.trans (congrArg (· + _) (size_closeArm b))
  | _ => exact size_write b rfl

end Builder

/-! ### Finished scripts -/

/-- What it takes for a builder to give a script, and what the script is. -/
theorem Builder.build_eq_ok {b : Builder} {script : Script} (h : b.build = .ok script) :
    (b.error = none ∧ b.opened = []) ∧ script.data = b.code ∧ script.entries = b.entryPoints := by
  unfold build at h
  split at h
  · exact nomatch h
  · next hmistake =>
    split at h
    · exact nomatch h
    · next hparts =>
      cases h
      have hdone : b.error = none ∧ b.opened = [] := by
        simpa [mistake?, Option.or_eq_none_iff] using hmistake
      exact ⟨hdone, Script.ofParts_eq_ok_iff.mp hparts⟩

end RoomScript
