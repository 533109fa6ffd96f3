import RoomScript.Proofs.Effect
import RoomScript.Proofs.Nested

/-!
# Reading nested code back

A script holds some bytes at an address if they stand there. What is held can be taken apart from
the front, so from a script that holds the code of a tree one comes to every instruction in it, and
an instruction that is held is fetched and decoded to the header it was written as.

**Main statements.** `Script.fetch_of_holds`: an instruction that is held is fetched.
`Control.findArm_of_holds`: the search for an arm of a switch ends where `Code.target` says, and
`Control.scanned` lists the addresses it looks at on the way.
-/

namespace RoomScript

open Layout Payload

/-! ### What stands at an address -/

/-- The script has these bytes at an address. -/
def Script.Holds (script : Script) (a : Nat) (bytes : List UInt8) : Prop :=
  ∃ pre post, script.data.toList = pre ++ bytes ++ post ∧ pre.length = a

namespace Script.Holds

variable {script : Script} {a : Nat} {xs ys : List UInt8}

theorem left (h : script.Holds a (xs ++ ys)) : script.Holds a xs := by
  obtain ⟨pre, post, heq, hlen⟩ := h
  exact ⟨pre, ys ++ post, by rw [heq]; simp, hlen⟩

theorem right (h : script.Holds a (xs ++ ys)) : script.Holds (a + xs.length) ys := by
  obtain ⟨pre, post, heq, hlen⟩ := h
  exact ⟨pre ++ xs, post, by rw [heq]; simp, by rw [List.length_append, hlen]⟩

end Script.Holds

/-- **An instruction that is held is fetched.** -/
theorem Script.fetch_of_holds {script : Script} {a : Nat} (op : Opcode) (payload : List UInt8)
    (hfits : payload.length + 1 ≤ op.size) (h : script.Holds a (op.bytes payload)) :
    script.fetch a = .ok (op, (op.bytes payload).toArray) := by
  obtain ⟨pre, post, heq, rfl⟩ := h
  have hlen := Opcode.length_bytes hfits
  have hdata : script.data = (pre ++ op.bytes payload ++ post).toArray := by rw [← heq]
  -- the opcode, that all of the instruction is there, and which bytes it is
  rw [fetch_eq_ok_iff]
  refine ⟨?_, ?_, ?_⟩
  · rw [hdata]
    simp [Opcode.bytes]
  · rw [hdata]
    simp only [List.size_toArray, List.length_append, hlen]
    omega
  · rw [hdata, List.extract_toArray, ← hlen, List.extract_eq_take_drop]
    simp

theorem Script.fetch_header {script : Script} {a : Nat} (op : Opcode) {first : UInt8} {length : Nat}
    (more : List UInt8) (hmore : more.length + 4 ≤ op.size)
    (h : script.Holds a (op.header first length more)) :
    script.fetch a = .ok (op, (op.header first length more).toArray) :=
  fetch_of_holds _ _ (by simp [wordBytes]; omega) h

/-! ### Headers

What a header was written with is what it is decoded to. A length is written as a word; one that
fits is read back as it was. -/

section Headers

variable (length : Nat) (var : UInt8) (w : UInt16)

theorem toNat_length {length : Nat} (h : length < 65536) : (UInt16.ofNat length).toNat = length :=
  UInt16.toNat_ofNat_of_lt h

theorem decode_ifStart : decode Block (Opcode.ifStart.header 0 length []).toArray =
    .ok ⟨UInt16.ofNat length⟩ := by
  rw [← word_low_high (UInt16.ofNat length)]
  rfl

theorem decode_elseStart : decode Block (Opcode.elseStart.header 0 length []).toArray =
    .ok ⟨UInt16.ofNat length⟩ := by
  rw [← word_low_high (UInt16.ofNat length)]
  rfl

theorem decode_forLoop : decode ForLoop (Opcode.forLoop.header 0 length (wordBytes w)).toArray =
    .ok ⟨UInt16.ofNat length, w⟩ := by
  have h : decode ForLoop (Opcode.forLoop.header 0 length (wordBytes w)).toArray =
    .ok ⟨word (low (UInt16.ofNat length)) (high (UInt16.ofNat length)), word (low w) (high w)⟩ :=
    rfl
  rw [h, word_low_high, word_low_high]

theorem decode_switch : decode Switch (Opcode.switch.header var length []).toArray =
    .ok ⟨var, UInt16.ofNat length⟩ := by
  rw [← word_low_high (UInt16.ofNat length)]
  rfl

theorem decode_caseArm : decode CaseArm (Opcode.caseArm.header 0 length (wordBytes w)).toArray =
    .ok ⟨UInt16.ofNat length, w⟩ := by
  have h : decode CaseArm (Opcode.caseArm.header 0 length (wordBytes w)).toArray =
    .ok ⟨word (low (UInt16.ofNat length)) (high (UInt16.ofNat length)), word (low w) (high w)⟩ :=
    rfl
  rw [h, word_low_high, word_low_high]

end Headers

/-! ### The arms of a switch -/

/-- The first arm that takes a value, with the arms behind it: the default one takes every value. -/
def Code.chosen (value : Int32) : {k : Kind} → Code k → Option (Code .row × Code .arms)
  | _, .arm none body more => some (body, more)
  | _, .arm (some v) body more =>
    if (v.toNat : Int) = value.toInt then some (body, more) else more.chosen value
  | _, _ => none

/-- **Where the search for an arm ends**: in the body of the first arm that takes the value, or
behind the switch. -/
def Code.target (value : Int32) : Code .arms → Nat → Control.Arm
  | .done, a => .behind (a + Opcode.endSwitch.size)
  | .arm (some v) body more, a =>
    if (v.toNat : Int) = value.toInt then .body (a + Opcode.caseArm.size)
    else more.target value (a + Opcode.caseArm.size + body.size)
  | .arm none _ _, a => .body (a + Opcode.defaultCase.size)

set_option linter.unusedVariables false in
/-- The addresses that the search for an arm fetches. -/
def Control.scanned (script : Script) (value : Int32) (scan : Nat) : List Nat :=
  scan :: match hf : script.fetch scan with
    | .ok (.caseArm, raw) =>
      match decodeAt CaseArm raw scan with
      | .error _ => []
      | .ok arm =>
        if (arm.value.toNat : Int) = value.toInt then []
        else scanned script value (scan + Opcode.caseArm.size + arm.length.toNat)
    | _ => []
termination_by script.data.size - scan
decreasing_by
  have h := (Script.fetch_eq_ok_iff.mp hf).2.1
  have : Opcode.caseArm.size = 6 := rfl
  omega

/-- The addresses of the arms of a switch that the search looks at, its end included. -/
def Code.armsBefore (value : Int32) : Code .arms → Nat → List Nat
  | .arm (some v) body more, a =>
    if (v.toNat : Int) = value.toInt then [a]
    else a :: more.armsBefore value (a + Opcode.caseArm.size + body.size)
  | .arm none _ _, a => [a]
  | .done, a => [a]

section Search

variable {script : Script} (value : Int32) {a : Nat} {raw : Bytes}

theorem Control.findArm_endSwitch (hf : script.fetch a = .ok (.endSwitch, raw)) :
    findArm script value a = .ok (.behind (a + Opcode.endSwitch.size)) ∧
      scanned script value a = [a] := by
  rw [findArm, scanned]
  constructor <;> split <;> simp_all

theorem Control.findArm_defaultCase (hf : script.fetch a = .ok (.defaultCase, raw)) :
    findArm script value a = .ok (.body (a + Opcode.defaultCase.size)) ∧
      scanned script value a = [a] := by
  rw [findArm, scanned]
  constructor <;> split <;> simp_all

theorem Control.findArm_caseArm {p : CaseArm} (hf : script.fetch a = .ok (.caseArm, raw))
    (hp : decode CaseArm raw = .ok p) :
    let next := a + Opcode.caseArm.size + p.length.toNat
    (findArm script value a =
      if (p.value.toNat : Int) = value.toInt then .ok (.body (a + Opcode.caseArm.size))
      else findArm script value next) ∧
      scanned script value a =
        a :: if (p.value.toNat : Int) = value.toInt then [] else scanned script value next := by
  have hat := decodeAt_of_decode hp a
  constructor
  · rw [findArm]
    split <;> simp_all
  · rw [scanned]
    split <;> simp_all

end Search

/-- **The search for an arm in code that is held.** -/
theorem Control.findArm_of_holds {script : Script} (value : Int32) {arms : Code .arms} {a : Nat}
    (hfits : arms.Fits) (h : script.Holds a (arms.encode ++ Opcode.endSwitch.bytes [])) :
    findArm script value a = .ok (arms.target value a) ∧
      scanned script value a = arms.armsBefore value a := by
  match arms with
  | .done =>
    have hf := Script.fetch_of_holds .endSwitch [] (by decide) h
    simp only [Code.target, Code.armsBefore]
    exact findArm_endSwitch value hf
  | .arm none body more =>
    rw [Code.encode, List.append_assoc, List.append_assoc] at h
    have hf := Script.fetch_of_holds .defaultCase [] (by decide) h.left
    simp only [Code.target, Code.armsBefore]
    exact findArm_defaultCase value hf
  | .arm (some v) body more =>
    rw [Code.encode, List.append_assoc, List.append_assoc] at h
    have hf := Script.fetch_header .caseArm (wordBytes v) (Nat.le_refl 6) h.left
    obtain ⟨hfind, hscan⟩ := findArm_caseArm value hf (decode_caseArm _ _)
    -- an arm that does not take the value is passed over by its length, to the next one
    have hrest := h.right.right
    rw [Code.length_armHeader] at hrest
    obtain ⟨ihfind, ihscan⟩ := findArm_of_holds value hfits.2.2 hrest
    have hlength : (UInt16.ofNat body.encode.length).toNat = body.size := toNat_length (hfits.1 rfl)
    simp only [hlength] at hfind hscan
    rw [hfind, hscan]
    simp only [Code.target, Code.armsBefore]
    by_cases hv : (v.toNat : Int) = value.toInt
    · simp only [if_pos hv, and_self]
    · simp only [if_neg hv]
      exact ⟨ihfind, congrArg (a :: ·) ihscan⟩

end RoomScript
