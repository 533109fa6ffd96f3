import RoomScript.Assembler

/-!
# Nested code

A script that is written with the named steps and comes out without a mistake is well nested: it is
a tree of blocks. `Code` is that tree. Its kind tells a row of statements from the arms of a switch,
so an arm can stand nowhere else, and a switch holds nothing but arms.

The steps of a tree are those that write it, and its bytes are given outright, with every length
filled in. Entry points write nothing, so they have no place in a tree; what they are is told by
where they stand among the steps.
-/

namespace RoomScript

open Layout

/-! ### Instructions as bytes -/

/-- The bytes of an instruction, its payload filled up with zeros. -/
def Opcode.bytes (op : Opcode) (payload : List UInt8) : List UInt8 :=
  op.toByte :: payload ++ List.replicate (op.size - 1 - payload.length) 0

/-- The bytes of a header with a length in it: one byte stands before the length. -/
def Opcode.header (op : Opcode) (first : UInt8) (length : Nat) (more : List UInt8) : List UInt8 :=
  op.bytes (first :: wordBytes (UInt16.ofNat length) ++ more)

theorem Opcode.length_bytes {op : Opcode} {payload : List UInt8}
    (h : payload.length + 1 ≤ op.size) : (op.bytes payload).length = op.size := by
  simp only [bytes, List.cons_append, List.length_cons, List.length_append, List.length_replicate]
  omega

theorem Opcode.length_bytes_nil (op : Opcode) : (op.bytes []).length = op.size :=
  length_bytes op.size_pos

theorem Opcode.length_header (op : Opcode) (first : UInt8) (length : Nat) (more : List UInt8)
    (h : more.length + 4 ≤ op.size) : (op.header first length more).length = op.size :=
  length_bytes (by simp [wordBytes]; omega)

/-- The steps the assembler has a name for; the others put down bytes as they are given. -/
def Step.isNamed : Step → Bool
  | .instruction .. | .raw _ => false
  | _ => true

/-- The named steps that write an instruction and open or close nothing. -/
def Step.isPlain : Step → Bool
  | .entry | .instruction .. | .raw _ | .ifStart | .elseStart | .endIf | .forLoop _ | .forEnd
  | .switch _ | .caseArm _ | .defaultCase | .endSwitch => false
  | _ => true

/-- A named step that writes an instruction and opens or closes nothing. -/
abbrev PlainStep := { s : Step // s.isPlain = true }

/-- What named steps write fits the opcode. -/
theorem Step.emission?_fits {s : Step} {op : Opcode} {payload : List UInt8}
    (hs : s.isNamed = true) (h : s.emission? = some (op, payload)) :
    payload.length + 1 ≤ op.size := by
  cases s with
  | instruction | raw => exact nomatch hs
  | entry | endIf | forEnd | endSwitch => exact nomatch h
  | _ => cases h; exact Nat.le_of_ble_eq_true rfl

namespace PlainStep

theorem isNamed (s : PlainStep) : s.val.isNamed = true := by
  obtain ⟨s, hs⟩ := s
  cases s with
  | instruction | raw => exact nomatch hs
  | _ => rfl

/-- The opcode and payload a plain step writes. -/
def emission (s : PlainStep) : Opcode × List UInt8 := s.val.emission?.getD (.nop, [])

theorem emission?_eq (s : PlainStep) : s.val.emission? = some s.emission := by
  obtain ⟨s, hs⟩ := s
  cases s with
  | entry | raw | endIf | forEnd | endSwitch => exact nomatch hs
  | _ => rfl

/-- The opcode a plain step writes. -/
def op (s : PlainStep) : Opcode := s.emission.1

/-- The bytes a plain step writes. -/
def bytes (s : PlainStep) : List UInt8 := s.emission.1.bytes s.emission.2

@[simp] theorem length_bytes (s : PlainStep) : s.bytes.length = s.op.size :=
  Opcode.length_bytes (Step.emission?_fits s.isNamed s.emission?_eq)

end PlainStep

/-! ### Trees -/

/-- What a piece of nested code is: a row of statements, or the arms of a switch. -/
inductive Code.Kind
  | row
  | arms
  deriving DecidableEq, Repr

/-- **Nested code.** -/
inductive Code : Code.Kind → Type
  | done {k : Code.Kind} : Code k
  | step (s : PlainStep) (rest : Code .row) : Code .row
  | ifThen (body rest : Code .row) : Code .row
  | ifElse (body other rest : Code .row) : Code .row
  | loop (count : UInt16) (body rest : Code .row) : Code .row
  | switch (var : UInt8) (arms : Code .arms) (rest : Code .row) : Code .row
  /-- An arm for a value, or the default one. -/
  | arm (label : Option UInt16) (body : Code .row) (more : Code .arms) : Code .arms
  deriving Repr

namespace Code

/-- The step that opens an arm. -/
def armStep : Option UInt16 → Step
  | some value => .caseArm value
  | none => .defaultCase

/-- The steps that write nested code. -/
@[simp] def steps : {k : Kind} → Code k → List Step
  | _, done => []
  | _, step s rest => s.val :: rest.steps
  | _, ifThen body rest => .ifStart :: body.steps ++ .endIf :: rest.steps
  | _, ifElse body other rest =>
    .ifStart :: body.steps ++ .elseStart :: other.steps ++ .endIf :: rest.steps
  | _, loop count body rest => .forLoop count :: body.steps ++ .forEnd :: rest.steps
  | _, switch var arms rest => .switch var :: arms.steps ++ .endSwitch :: rest.steps
  | _, arm label body more => armStep label :: body.steps ++ more.steps

/-- The header of an arm. Only an arm for a value has a length, which covers its body alone. -/
def armHeader (label : Option UInt16) (length : Nat) : List UInt8 :=
  match label with
  | some value => Opcode.caseArm.header 0 length (wordBytes value)
  | none => Opcode.defaultCase.bytes []

/-- The opcode of an arm. -/
def armOp : Option UInt16 → Opcode
  | some _ => .caseArm
  | none => .defaultCase

/-- **The bytes of nested code**, with the lengths in place:

* an if spans from after its header to after what closes it, or to after the header of its else;
* an else spans from its own header to its end;
* a loop and a switch span from after their header to after what closes them. -/
@[simp] def encode : {k : Kind} → Code k → List UInt8
  | _, done => []
  | _, step s rest => s.bytes ++ rest.encode
  | _, ifThen body rest =>
    Opcode.ifStart.header 0 (body.encode.length + Opcode.endIf.size) [] ++ body.encode ++
      Opcode.endIf.bytes [] ++ rest.encode
  | _, ifElse body other rest =>
    Opcode.ifStart.header 0 (Opcode.ifStart.size + body.encode.length) [] ++ body.encode ++
      Opcode.elseStart.header 0 (Opcode.elseStart.size + other.encode.length) [] ++
      other.encode ++ rest.encode
  | _, loop count body rest =>
    Opcode.forLoop.header 0 (body.encode.length + Opcode.forEnd.size) (wordBytes count) ++
      body.encode ++ Opcode.forEnd.bytes [] ++ rest.encode
  | _, switch var arms rest =>
    Opcode.switch.header var (arms.encode.length + Opcode.endSwitch.size) [] ++ arms.encode ++
      Opcode.endSwitch.bytes [] ++ rest.encode
  | _, arm label body more =>
    armHeader label body.encode.length ++ body.encode ++ more.encode

/-- The number of bytes of nested code. -/
def size {k : Kind} (c : Code k) : Nat := c.encode.length

/-- The lengths of all blocks fit their fields. -/
def Fits : {k : Kind} → Code k → Prop
  | _, done => True
  | _, step _ rest => rest.Fits
  | _, ifThen body rest => body.size + Opcode.endIf.size < 65536 ∧ body.Fits ∧ rest.Fits
  | _, ifElse body other rest =>
    (Opcode.ifStart.size + body.size < 65536 ∧ body.Fits) ∧
      (Opcode.elseStart.size + other.size < 65536 ∧ other.Fits) ∧ rest.Fits
  | _, loop _ body rest => body.size + Opcode.forEnd.size < 65536 ∧ body.Fits ∧ rest.Fits
  | _, switch _ arms rest => arms.size + Opcode.endSwitch.size < 65536 ∧ arms.Fits ∧ rest.Fits
  | _, arm label body more => (label.isSome → body.size < 65536) ∧ body.Fits ∧ more.Fits

/-- Two pieces of code, one after the other. -/
@[simp] def append : {k : Kind} → Code k → Code k → Code k
  | _, done, c => c
  | _, step s rest, c => step s (rest.append c)
  | _, ifThen body rest, c => ifThen body (rest.append c)
  | _, ifElse body other rest, c => ifElse body other (rest.append c)
  | _, loop count body rest, c => loop count body (rest.append c)
  | _, switch var arms rest, c => switch var arms (rest.append c)
  | _, arm label body more, c => arm label body (more.append c)

@[simp] theorem append_done {k : Kind} (c : Code k) : c.append done = c := by
  induction c with
  | done => rfl
  | _ => simp_all [append]

/-- The steps of nested code have names, and declare no entry points. -/
theorem named_of_mem_steps {k : Kind} {c : Code k} {s : Step} (h : s ∈ c.steps) :
    s.isNamed = true ∧ s ≠ .entry := by
  -- the borders of blocks have names of their own, so only the plain steps are in question
  induction c with
  | done => exact nomatch h
  | step s' rest ih =>
    rcases List.mem_cons.mp h with rfl | h
    · obtain ⟨s', hs'⟩ := s'
      exact ⟨PlainStep.isNamed ⟨s', hs'⟩, fun heq => by cases heq; exact nomatch hs'⟩
    · exact ih h
  | arm label body more ihbody ihmore =>
    simp only [steps, List.cons_append, List.mem_cons, List.mem_append] at h
    rcases h with rfl | h | h
    · cases label <;> exact ⟨rfl, nofun⟩
    · exact ihbody h
    · exact ihmore h
  | _ =>
    simp only [steps, List.cons_append, List.append_assoc, List.mem_cons, List.mem_append] at h
    grind [Step.isNamed]

/-! ### Sizes -/

section Sizes

variable {k : Kind} (body other rest : Code .row) (arms more : Code .arms)

@[simp] theorem length_armHeader (label : Option UInt16) (length : Nat) :
    (armHeader label length).length = (armOp label).size := by
  cases label with
  | some value => exact Opcode.length_bytes (Nat.le_refl 6)
  | none => exact Opcode.length_bytes (by decide)

@[simp] theorem size_done : (done : Code k).size = 0 := rfl

@[simp] theorem size_step (s : PlainStep) : (step s rest).size = s.op.size + rest.size := by
  simp [size, encode]

@[simp] theorem size_ifThen : (ifThen body rest).size =
    Opcode.ifStart.size + body.size + Opcode.endIf.size + rest.size := by
  simp only [size, encode, List.length_append]
  rfl

@[simp] theorem size_ifElse : (ifElse body other rest).size =
    Opcode.ifStart.size + body.size + Opcode.elseStart.size + other.size + rest.size := by
  simp only [size, encode, List.length_append]
  rfl

@[simp] theorem size_loop (count : UInt16) : (loop count body rest).size =
    Opcode.forLoop.size + body.size + Opcode.forEnd.size + rest.size := by
  simp only [size, encode, List.length_append]
  rfl

@[simp] theorem size_switch (var : UInt8) : (switch var arms rest).size =
    Opcode.switch.size + arms.size + Opcode.endSwitch.size + rest.size := by
  simp only [size, encode, List.length_append]
  rfl

@[simp] theorem size_arm (label : Option UInt16) : (arm label body more).size =
    (armOp label).size + body.size + more.size := by
  simp [size, encode, Nat.add_assoc]

end Sizes

end Code

end RoomScript
