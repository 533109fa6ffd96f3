import RoomScript.Proofs.Building

/-!
# The grammar of the assembler

The assembler keeps a stack of open blocks and finds out as it goes along whether steps fit
together. What it accepts in the end is a language with a grammar of its own: rows of statements,
with ifs, loops and switches around rows, and the arms of a switch behind whatever a switch starts
with. `Outline` is a derivation in that grammar. It covers every step, also those that put down
bytes as they are given and those that declare entry points.

Two facts make up the language. Carrying out the steps of an outline whose payloads and lengths fit
puts down its bytes, whatever was there before; nothing is looked up on the way that could go wrong.
And steps that leave neither a mistake nor an open block can be read from the last one back as an
outline, where every payload and every length fits because none of them was complained about.

**Main statements.** `Outline.foldl_steps`: the steps of an outline that fits put down its bytes and
declare its entry points. `Outline.fits_of_error`: an outline whose steps leave no mistake fits.
`Outline.exists_of_run`: steps that leave no mistake and nothing open are those of an outline.
`Builder.build_ok_iff_outline`: the steps that can be built are those of the outlines that fit and
whose entry points lie in their code.
-/

namespace RoomScript

open Layout

/-! ### Steps that stand by themselves -/

/-- The steps that neither open nor close a block. -/
def Step.isFree : Step → Bool
  | .ifStart | .elseStart | .endIf | .forLoop _ | .forEnd | .switch _ | .caseArm _ | .defaultCase
  | .endSwitch => false
  | _ => true

/-- A step that neither opens nor closes a block. -/
abbrev FreeStep := { s : Step // s.isFree = true }

namespace Step

theorem isNamed_of_not_free {s : Step} (h : ¬ s.isFree = true) : s.isNamed = true := by
  cases s with
  | instruction | raw => exact absurd rfl h
  | _ => rfl

theorem isFree_of_plain {s : Step} (h : s.isPlain = true ∨ s = .entry) : s.isFree = true := by
  cases s with
  | ifStart | elseStart | endIf | forLoop | forEnd | switch | caseArm | defaultCase | endSwitch =>
    rcases h with h | h <;> exact nomatch h
  | _ => rfl

/-- The bytes a step puts down where it stands, with lengths still empty. -/
def bytes : Step → List UInt8
  | .raw bytes => bytes.toList
  | s =>
    match s.emission? with
    | some (op, payload) => op.bytes payload
    | none => []

/-- The entry points that a step declares where it stands. -/
def declares (address : Nat) : Step → List Nat
  | .entry => [address]
  | _ => []

/-- An instruction is given no more payload than it holds. -/
def PayloadFits : Step → Prop
  | .instruction op payload => payload.length ≤ op.size - 1
  | _ => True

/-- What a step writes fits the opcode if its payload does. -/
theorem PayloadFits.emission {s : Step} (h : s.PayloadFits) {op : Opcode} {payload : List UInt8}
    (he : s.emission? = some (op, payload)) : payload.length + 1 ≤ op.size := by
  cases s with
  | instruction op' payload' =>
    cases he
    have := op.size_pos
    have : payload.length ≤ op.size - 1 := h
    omega
  | raw => exact nomatch he
  | _ => exact Step.emission?_fits rfl he

end Step

/-! ### Outlines -/

/-- **A derivation in the grammar of the assembler**: a row of statements, or the arms of a
switch. -/
inductive Outline : Code.Kind → Type
  | done {k : Code.Kind} : Outline k
  | step (s : FreeStep) (rest : Outline .row) : Outline .row
  | ifThen (body rest : Outline .row) : Outline .row
  | ifElse (body other rest : Outline .row) : Outline .row
  | loop (count : UInt16) (body rest : Outline .row) : Outline .row
  /-- A switch may start with anything before its first arm. -/
  | switch (var : UInt8) (front : Outline .row) (arms : Outline .arms) (rest : Outline .row) :
    Outline .row
  | arm (label : Option UInt16) (body : Outline .row) (more : Outline .arms) : Outline .arms

namespace Outline

open Code (Kind armStep armHeader armOp)

/-- The steps that an outline derives. -/
@[simp] def steps : {k : Kind} → Outline k → List Step
  | _, done => []
  | _, step s rest => s.val :: rest.steps
  | _, ifThen body rest => .ifStart :: body.steps ++ .endIf :: rest.steps
  | _, ifElse body other rest =>
    .ifStart :: body.steps ++ .elseStart :: other.steps ++ .endIf :: rest.steps
  | _, loop count body rest => .forLoop count :: body.steps ++ .forEnd :: rest.steps
  | _, switch var front arms rest =>
    .switch var :: front.steps ++ arms.steps ++ .endSwitch :: rest.steps
  | _, arm label body more => armStep label :: body.steps ++ more.steps

/-- **The bytes of an outline**, with the lengths in place. -/
@[simp] def encode : {k : Kind} → Outline k → List UInt8
  | _, done => []
  | _, step s rest => s.val.bytes ++ rest.encode
  | _, ifThen body rest =>
    Opcode.ifStart.header 0 (body.encode.length + Opcode.endIf.size) [] ++
      (body.encode ++ Opcode.endIf.bytes []) ++ rest.encode
  | _, ifElse body other rest =>
    Opcode.ifStart.header 0 (Opcode.ifStart.size + body.encode.length) [] ++ body.encode ++
      (Opcode.elseStart.header 0 (Opcode.elseStart.size + other.encode.length) [] ++
        other.encode ++ rest.encode)
  | _, loop count body rest =>
    Opcode.forLoop.header 0 (body.encode.length + Opcode.forEnd.size) (wordBytes count) ++
      (body.encode ++ Opcode.forEnd.bytes []) ++ rest.encode
  | _, switch var front arms rest =>
    Opcode.switch.header var
        (front.encode.length + arms.encode.length + Opcode.endSwitch.size) [] ++
      (front.encode ++ arms.encode ++ Opcode.endSwitch.bytes []) ++ rest.encode
  | _, arm label body more =>
    armHeader label body.encode.length ++ body.encode ++ more.encode

/-- The number of bytes of an outline. -/
def size {k : Kind} (o : Outline k) : Nat := o.encode.length

/-- The entry points that an outline declares, if it stands at an address. -/
@[simp] def entries : {k : Kind} → Outline k → (address : Nat) → List Nat
  | _, done, _ => []
  | _, step s rest, a => s.val.declares a ++ rest.entries (a + s.val.bytes.length)
  | _, ifThen body rest, a =>
    body.entries (a + Opcode.ifStart.size) ++
      rest.entries (a + Opcode.ifStart.size + (body.size + Opcode.endIf.size))
  | _, ifElse body other rest, a =>
    let elseAt := a + (Opcode.ifStart.size + body.size)
    body.entries (a + Opcode.ifStart.size) ++ (other.entries (elseAt + Opcode.elseStart.size) ++
      rest.entries (elseAt + Opcode.elseStart.size + other.size))
  | _, loop _ body rest, a =>
    body.entries (a + Opcode.forLoop.size) ++
      rest.entries (a + Opcode.forLoop.size + (body.size + Opcode.forEnd.size))
  | _, switch _ front arms rest, a =>
    let first := a + Opcode.switch.size
    front.entries first ++ arms.entries (first + front.size) ++
      rest.entries (first + (front.size + arms.size + Opcode.endSwitch.size))
  | _, arm label body more, a =>
    body.entries (a + (armOp label).size) ++ more.entries (a + ((armOp label).size + body.size))

/-- The entry points of a script with this outline; one that declares none starts at its first
byte. -/
def entryPoints (o : Outline .row) : List Nat := if (o.entries 0).isEmpty then [0] else o.entries 0

/-- **The length of every block fits its field.** -/
@[simp] def Fits : {k : Kind} → Outline k → Prop
  | _, done => True
  | _, step _ rest => rest.Fits
  | _, ifThen body rest => body.size + Opcode.endIf.size < 65536 ∧ body.Fits ∧ rest.Fits
  | _, ifElse body other rest =>
    (Opcode.ifStart.size + body.size < 65536 ∧ body.Fits) ∧
      (Opcode.elseStart.size + other.size < 65536 ∧ other.Fits) ∧ rest.Fits
  | _, loop _ body rest => body.size + Opcode.forEnd.size < 65536 ∧ body.Fits ∧ rest.Fits
  | _, switch _ front arms rest =>
    front.size + arms.size + Opcode.endSwitch.size < 65536 ∧ front.Fits ∧ arms.Fits ∧ rest.Fits
  | _, arm label body more => (label.isSome → body.size < 65536) ∧ body.Fits ∧ more.Fits

end Outline

/-! ### Putting down bytes and declaring entry points -/

namespace Builder

variable {b : Builder} {es : List Nat}

/-- Appends bytes and entry points. -/
def grow (b : Builder) (bytes : List UInt8) (es : List Nat) : Builder :=
  { b with code := b.code ++ bytes, entries := b.entries ++ es }

@[simp] theorem size_grow (b : Builder) (bytes : List UInt8) (es : List Nat) :
    (b.grow bytes es).code.size = b.code.size + bytes.length := b.size_put bytes

theorem grow_nil (b : Builder) : b.grow [] [] = b := by simp [grow]

theorem put_eq_grow (b : Builder) (bytes : List UInt8) : b.put bytes = b.grow bytes [] := by
  simp [put, grow]

theorem grow_grow (b : Builder) (xs ys : List UInt8) (es fs : List Nat) :
    (b.grow xs es).grow ys fs = b.grow (xs ++ ys) (es ++ fs) := by
  simp only [grow]
  congr 1 <;> apply Array.ext' <;> simp

/-- Filling in the length of a header changes that length and nothing else. -/
theorem patch_grow (b : Builder) (op : Opcode) (first : UInt8) (length : Nat)
    (more post : List UInt8) (es : List Nat) {n : Nat} (hn : n < 65536) :
    (b.grow (op.header first length more ++ post) es).patch (lengthField b.code.size) n =
      b.grow (op.header first n more ++ post) es := by
  rw [patch, if_pos hn]
  simp only [grow]
  congr 1
  apply Array.ext'
  simp [lengthField, Opcode.header, Opcode.bytes, wordBytes, Nat.add_assoc]

/-- A step that opens and closes nothing puts down its bytes and declares its entry points. -/
theorem apply_free (b : Builder) (s : FreeStep) (h : s.val.PayloadFits) :
    b.apply s.val = b.grow s.val.bytes (s.val.declares b.code.size) := by
  obtain ⟨s, hs⟩ := s
  -- most of them write one instruction and nothing else
  have hwrite : ∀ {op payload}, s.emission? = some (op, payload) →
      b.write s = b.grow (op.bytes payload) [] := by
    intro op payload he
    simp only [write, he, b.emit_of_fits _ _ (h.emission he), put_eq_grow]
  cases s with
  | ifStart | elseStart | endIf | forLoop | forEnd | switch | caseArm | defaultCase | endSwitch =>
    exact nomatch hs
  | entry =>
    change { b with entries := b.entries.push b.code.size } = b.grow [] [b.code.size]
    simp [grow]
  | raw bytes =>
    change { b with code := b.code ++ bytes } = b.grow bytes.toList []
    rw [grow]
    congr 1
    apply Array.ext'
    simp
  | _ => exact hwrite rfl

/-- Without a mistake the payload of a step fits. -/
theorem payloadFits_of_error {s : Step} (h : (b.apply s).error = none) : s.PayloadFits := by
  cases s with
  | instruction op payload =>
    change (b.emit op payload).error = none at h
    unfold emit at h
    split at h
    · exact absurd h (error_fail _ _)
    · change payload.length ≤ op.size - 1
      omega
  | _ => trivial

theorem payloadFits_of_foldl {steps : List Step} (h : (steps.foldl apply b).error = none) :
    ∀ s ∈ steps, s.PayloadFits := by
  induction steps generalizing b with
  | nil => exact List.forall_mem_nil _
  | cons s steps ih =>
    exact List.forall_mem_cons.mpr ⟨payloadFits_of_error (error_foldl h), ih h⟩

/-- The open blocks are left alone by a step that opens and closes nothing. -/
theorem opened_of_free {s : Step} (hs : s.isFree = true) : (b.apply s).opened = b.opened := by
  cases s with
  | ifStart | elseStart | endIf | forLoop | forEnd | switch | caseArm | defaultCase | endSwitch =>
    exact nomatch hs
  | entry | raw => rfl
  | _ => exact b.opened_write _

/-! ### Closing a block is filling in its length -/

theorem finish_grow {o : Opening} {header closer : Opcode} {first : UInt8}
    {more body : List UInt8} (hmore : more.length + 4 ≤ header.size) (hcloser : 1 ≤ closer.size) :
    ((b.openBlock o).grow (header.header first 0 more ++ body) es).finish b.code.size header
        closer =
      (b.grow (header.header first 0 more ++ (body ++ closer.bytes [])) es).patch
        (lengthField b.code.size) (body.length + closer.size) := by
  have hheader := header.length_header first 0 more hmore
  have hend := closer.length_bytes_nil
  have hclosed : ((b.openBlock o).grow (header.header first 0 more ++ body) es).closeBlock.emit
      closer [] = b.grow (header.header first 0 more ++ (body ++ closer.bytes [])) es := by
    rw [emit_of_fits _ closer [] (by simp; omega), put_eq_grow, ← List.append_assoc]
    exact (b.grow_grow _ _ es []).trans (by rw [List.append_nil])
  -- what is left is the length, counted from behind the header to behind the closing instruction
  unfold finish
  simp only [hclosed]
  congr 1
  simp only [size_grow, List.length_append, hheader, hend]
  omega

theorem elseStart_grow {body : List UInt8} :
    ((b.openBlock (.ifBlock b.code.size)).grow
        (Opcode.ifStart.header 0 0 [] ++ body) es).apply .elseStart =
      (((b.grow (Opcode.ifStart.header 0 0 [] ++ body) es).patch (lengthField b.code.size)
        (Opcode.ifStart.size + body.length)).openBlock
          (.elseBlock (b.code.size + (Opcode.ifStart.size + body.length)))).grow
        (Opcode.elseStart.header 0 0 []) [] := by
  have hsize : ((b.openBlock (.ifBlock b.code.size)).grow
      (Opcode.ifStart.header 0 0 [] ++ body) es).code.size =
        b.code.size + (Opcode.ifStart.size + body.length) := by
    rw [size_grow, List.length_append]
    rfl
  -- the length of the if is filled in before the header of the else is written
  change ((((b.grow (Opcode.ifStart.header 0 0 [] ++ body) es).patch (lengthField b.code.size)
    (((b.openBlock (.ifBlock b.code.size)).grow (Opcode.ifStart.header 0 0 [] ++ body)
      es).code.size - b.code.size)).openBlock (.elseBlock _)).emit .elseStart []) = _
  rw [hsize, Nat.add_sub_cancel_left, emit_of_fits _ _ _ (by decide), put_eq_grow]
  rfl

theorem endElse_grow {body : List UInt8} :
    ((b.openBlock (.elseBlock b.code.size)).grow
        (Opcode.elseStart.header 0 0 [] ++ body) es).apply .endIf =
      (b.grow (Opcode.elseStart.header 0 0 [] ++ body) es).patch (lengthField b.code.size)
        (Opcode.elseStart.size + body.length) := by
  have hsize : ((b.openBlock (.elseBlock b.code.size)).grow
      (Opcode.elseStart.header 0 0 [] ++ body) es).code.size - b.code.size =
        Opcode.elseStart.size + body.length := by
    rw [size_grow, List.length_append]
    exact Nat.add_sub_cancel_left _ _
  rw [← hsize]
  rfl

theorem closeArm_grow {value : UInt16} {body : List UInt8} :
    ((b.openBlock (.caseArm b.code.size)).grow
        (Opcode.caseArm.header 0 0 (wordBytes value) ++ body) es).closeArm =
      (b.grow (Opcode.caseArm.header 0 0 (wordBytes value) ++ body) es).patch
        (lengthField b.code.size) body.length := by
  have hsize : ((b.openBlock (.caseArm b.code.size)).grow
      (Opcode.caseArm.header 0 0 (wordBytes value) ++ body) es).code.size -
        (b.code.size + Opcode.caseArm.size) = body.length := by
    have hheader : (Opcode.caseArm.header 0 0 (wordBytes value)).length = Opcode.caseArm.size := rfl
    rw [size_grow, List.length_append, hheader, ← Nat.add_assoc]
    exact Nat.add_sub_cancel_left _ _
  rw [← hsize]
  rfl

end Builder

/-! ### The steps of an outline -/

namespace Outline

open Code (Kind armStep armHeader armOp)

/-- What the steps of an outline do. The last arm of a switch is still open behind its steps, so
arms are looked at with it closed. -/
def Grows : {k : Kind} → Outline k → Prop
  | .row, o => ∀ b : Builder,
    o.steps.foldl Builder.apply b = b.grow o.encode (o.entries b.code.size)
  | .arms, o => ∀ b : Builder,
    (o.steps.foldl Builder.apply b).closeArm = b.closeArm.grow o.encode (o.entries b.code.size)

/-! What the steps of a block come to once it is closed: its length is about to be filled in. -/

section Closed

variable {body front : Outline .row} {arms : Outline .arms} (b : Builder)

/-- What a row does behind the header of a block that it stands in. -/
theorem Grows.behind (h : body.Grows) {o : Opening} (header : Opcode) {first : UInt8}
    (more : List UInt8) (hmore : more.length + 4 ≤ header.size) :
    body.steps.foldl Builder.apply ((b.openBlock o).grow (header.header first 0 more) []) =
      (b.openBlock o).grow (header.header first 0 more ++ body.encode)
        (body.entries (b.code.size + header.size)) := by
  rw [h, Builder.grow_grow, Builder.size_grow, header.length_header first 0 more hmore]
  rfl

theorem Grows.closed_if (h : body.Grows) :
    (body.steps.foldl Builder.apply (b.apply .ifStart)).apply .endIf =
      (b.grow (Opcode.ifStart.header 0 0 [] ++ (body.encode ++ Opcode.endIf.bytes []))
        (body.entries (b.code.size + Opcode.ifStart.size))).patch
          (Builder.lengthField b.code.size) (body.size + Opcode.endIf.size) := by
  change (body.steps.foldl Builder.apply ((b.openBlock (.ifBlock b.code.size)).grow
    (Opcode.ifStart.header 0 0 []) [])).apply .endIf = _
  rw [h.behind b .ifStart [] (by decide)]
  exact Builder.finish_grow (by decide) (by decide)

theorem Grows.closed_loop (h : body.Grows) (count : UInt16) :
    (body.steps.foldl Builder.apply (b.apply (.forLoop count))).apply .forEnd =
      (b.grow (Opcode.forLoop.header 0 0 (wordBytes count) ++
          (body.encode ++ Opcode.forEnd.bytes []))
        (body.entries (b.code.size + Opcode.forLoop.size))).patch
          (Builder.lengthField b.code.size) (body.size + Opcode.forEnd.size) := by
  change (body.steps.foldl Builder.apply ((b.openBlock (.forLoop b.code.size)).grow
    (Opcode.forLoop.header 0 0 (wordBytes count)) [])).apply .forEnd = _
  rw [h.behind b .forLoop (wordBytes count) (Nat.le_refl 6)]
  exact Builder.finish_grow (Nat.le_refl 6) (by decide)

/-- An if that an else follows is closed by the header of the else. -/
theorem Grows.closed_then (h : body.Grows) :
    (body.steps.foldl Builder.apply (b.apply .ifStart)).apply .elseStart =
      (let filled := (b.grow (Opcode.ifStart.header 0 0 [] ++ body.encode)
        (body.entries (b.code.size + Opcode.ifStart.size))).patch
          (Builder.lengthField b.code.size) (Opcode.ifStart.size + body.size)
      (filled.openBlock (.elseBlock filled.code.size)).grow
        (Opcode.elseStart.header 0 0 []) []) := by
  change (body.steps.foldl Builder.apply ((b.openBlock (.ifBlock b.code.size)).grow
    (Opcode.ifStart.header 0 0 []) [])).apply .elseStart = _
  rw [h.behind b .ifStart [] (by decide), Builder.elseStart_grow]
  simp only [Builder.size_patch, Builder.size_grow, List.length_append]
  rfl

theorem Grows.closed_else (h : body.Grows) :
    (body.steps.foldl Builder.apply ((b.openBlock (.elseBlock b.code.size)).grow
        (Opcode.elseStart.header 0 0 []) [])).apply .endIf =
      (b.grow (Opcode.elseStart.header 0 0 [] ++ body.encode)
        (body.entries (b.code.size + Opcode.elseStart.size))).patch
          (Builder.lengthField b.code.size) (Opcode.elseStart.size + body.size) := by
  rw [h.behind b .elseStart [] (by decide)]
  exact Builder.endElse_grow

theorem Grows.closed_switch (hfront : front.Grows) (harms : arms.Grows) (var : UInt8) :
    (arms.steps.foldl Builder.apply (front.steps.foldl Builder.apply
        (b.apply (.switch var)))).apply .endSwitch =
      (b.grow (Opcode.switch.header var 0 [] ++ (front.encode ++ arms.encode ++
          Opcode.endSwitch.bytes []))
        (front.entries (b.code.size + Opcode.switch.size) ++
          arms.entries (b.code.size + Opcode.switch.size + front.size))).patch
        (Builder.lengthField b.code.size) (front.size + arms.size + Opcode.endSwitch.size) := by
  let inner := (b.openBlock (.switch b.code.size)).grow
    (Opcode.switch.header var 0 [] ++ front.encode)
    (front.entries (b.code.size + Opcode.switch.size))
  have hsize : inner.code.size = b.code.size + Opcode.switch.size + front.size := by
    rw [Builder.size_grow, List.length_append, ← Nat.add_assoc]
    rfl
  -- no arm is open in front of the first one
  have hopen : (arms.steps.foldl Builder.apply inner).closeArm =
      (b.openBlock (.switch b.code.size)).grow
        (Opcode.switch.header var 0 [] ++ (front.encode ++ arms.encode))
        (front.entries (b.code.size + Opcode.switch.size) ++
          arms.entries (b.code.size + Opcode.switch.size + front.size)) := by
    rw [harms, hsize, ← List.append_assoc, ← Builder.grow_grow]
    rfl
  change (arms.steps.foldl Builder.apply (front.steps.foldl Builder.apply
    ((b.openBlock (.switch b.code.size)).grow (Opcode.switch.header var 0 []) []))).endSwitch = _
  rw [hfront.behind b .switch [] (by decide), Builder.endSwitch]
  simp only [inner, hopen]
  refine (Builder.finish_grow (by decide) (by decide)).trans ?_
  rw [List.length_append]
  rfl

theorem Grows.closed_case (h : body.Grows) (value : UInt16) :
    (body.steps.foldl Builder.apply (b.apply (.caseArm value))).closeArm =
      (b.closeArm.grow (Opcode.caseArm.header 0 0 (wordBytes value) ++ body.encode)
        (body.entries (b.code.size + Opcode.caseArm.size))).patch
          (Builder.lengthField b.closeArm.code.size) body.size := by
  change (body.steps.foldl Builder.apply ((b.closeArm.openBlock
    (.caseArm b.closeArm.code.size)).grow
      (Opcode.caseArm.header 0 0 (wordBytes value)) [])).closeArm = _
  rw [h.behind b.closeArm .caseArm (wordBytes value) (Nat.le_refl 6), Builder.closeArm_grow,
    Builder.size_closeArm]
  rfl

theorem Grows.closed_default (h : body.Grows) :
    (body.steps.foldl Builder.apply (b.apply .defaultCase)).closeArm =
      b.closeArm.grow (Opcode.defaultCase.bytes [] ++ body.encode)
        (body.entries (b.code.size + Opcode.defaultCase.size)) := by
  change (body.steps.foldl Builder.apply ((b.closeArm.openBlock .defaultCase).grow
    (Opcode.defaultCase.bytes []) [])).closeArm = _
  rw [h, Builder.grow_grow, Builder.size_grow]
  change b.closeArm.grow _ (body.entries (b.closeArm.code.size + _)) = _
  rw [Builder.size_closeArm]
  rfl

end Closed

/-! With a length that fits, filling it in is putting down the block as a whole. -/

/-- What follows a block once its length is filled in. -/
theorem Grows.after {rest : Outline .row} (hrest : rest.Grows) (b : Builder) (header : Opcode)
    {first : UInt8} (more post : List UInt8) {es : List Nat} {n : Nat}
    (hmore : more.length + 4 ≤ header.size) (hn : n < 65536) :
    rest.steps.foldl Builder.apply ((b.grow (header.header first 0 more ++ post) es).patch
        (Builder.lengthField b.code.size) n) =
      b.grow (header.header first n more ++ post ++ rest.encode)
        (es ++ rest.entries (b.code.size + header.size + post.length)) := by
  rw [b.patch_grow header first 0 more _ es hn, hrest, Builder.grow_grow, Builder.size_grow,
    List.length_append, header.length_header first n more hmore, Nat.add_assoc]

theorem grows_step {s : FreeStep} {rest : Outline .row} (hs : s.val.PayloadFits)
    (hrest : rest.Grows) : (step s rest).Grows := by
  intro b
  rw [steps, List.foldl_cons, b.apply_free s hs, hrest, Builder.grow_grow, Builder.size_grow]
  rfl

theorem grows_ifThen {body rest : Outline .row} (hbody : body.Grows) (hrest : rest.Grows)
    (hlt : body.size + Opcode.endIf.size < 65536) : (ifThen body rest).Grows := by
  intro b
  simp only [steps, List.cons_append, List.foldl_cons, List.foldl_append]
  rw [hbody.closed_if, hrest.after b .ifStart [] _ (by decide) hlt, List.length_append]
  rfl

theorem grows_loop {count : UInt16} {body rest : Outline .row} (hbody : body.Grows)
    (hrest : rest.Grows) (hlt : body.size + Opcode.forEnd.size < 65536) :
    (loop count body rest).Grows := by
  intro b
  simp only [steps, List.cons_append, List.foldl_cons, List.foldl_append]
  rw [hbody.closed_loop, hrest.after b .forLoop (wordBytes count) _ (Nat.le_refl 6) hlt,
    List.length_append]
  rfl

theorem grows_ifElse {body other rest : Outline .row} (hbody : body.Grows) (hother : other.Grows)
    (hrest : rest.Grows) (hlt : Opcode.ifStart.size + body.size < 65536)
    (hlt' : Opcode.elseStart.size + other.size < 65536) : (ifElse body other rest).Grows := by
  intro b
  simp only [steps, List.cons_append, List.foldl_cons, List.foldl_append]
  rw [hbody.closed_then, b.patch_grow .ifStart 0 0 [] _ _ hlt]
  simp only
  rw [hother.closed_else, hrest.after _ .elseStart [] _ (by decide) hlt', Builder.grow_grow,
    Builder.size_grow, List.length_append]
  rfl

theorem grows_switch {var : UInt8} {front rest : Outline .row} {arms : Outline .arms}
    (hfront : front.Grows) (harms : arms.Grows) (hrest : rest.Grows)
    (hlt : front.size + arms.size + Opcode.endSwitch.size < 65536) :
    (switch var front arms rest).Grows := by
  intro b
  simp only [steps, List.cons_append, List.foldl_cons, List.foldl_append]
  rw [hfront.closed_switch b harms, hrest.after b .switch [] _ (by decide) hlt, List.length_append,
    List.length_append]
  rfl

theorem grows_arm {label : Option UInt16} {body : Outline .row} {more : Outline .arms}
    (hbody : body.Grows) (hmore : more.Grows) (hlt : label.isSome → body.size < 65536) :
    (arm label body more).Grows := by
  intro b
  simp only [steps, List.cons_append, List.foldl_cons, List.foldl_append]
  -- closing what is open behind the body is closing this arm
  have hclosed : (body.steps.foldl Builder.apply (b.apply (armStep label))).closeArm =
      b.closeArm.grow (armHeader label body.size ++ body.encode)
        (body.entries (b.code.size + (armOp label).size)) := by
    cases label with
    | some value =>
      exact (hbody.closed_case b value).trans (b.closeArm.patch_grow .caseArm 0 0 _ _ _ (hlt rfl))
    | none => exact hbody.closed_default b
  have hsize : (body.steps.foldl Builder.apply (b.apply (armStep label))).code.size =
      b.code.size + ((armOp label).size + body.size) := by
    rw [← Builder.size_closeArm, hclosed, Builder.size_grow, Builder.size_closeArm,
      List.length_append, Code.length_armHeader]
    rfl
  rw [hmore, hclosed, hsize, Builder.grow_grow]
  rfl

theorem grows {k : Kind} {o : Outline k} (hfits : o.Fits) (hpay : ∀ s ∈ o.steps, s.PayloadFits) :
    o.Grows := by
  -- by the rules of the grammar; what fits as a whole fits in its parts
  induction o with
  | done => rename_i k; cases k <;> exact fun b => (Builder.grow_nil _).symm
  | step s rest hrest =>
    rw [steps, List.forall_mem_cons] at hpay
    exact grows_step hpay.1 (hrest hfits hpay.2)
  | ifThen body rest hbody hrest =>
    obtain ⟨hlt, hbodyFits, hrestFits⟩ := hfits
    simp only [steps, List.cons_append, List.forall_mem_cons, List.forall_mem_append] at hpay
    obtain ⟨-, hbodyPay, -, hrestPay⟩ := hpay
    exact grows_ifThen (hbody hbodyFits hbodyPay) (hrest hrestFits hrestPay) hlt
  | ifElse body other rest hbody hother hrest =>
    obtain ⟨⟨hlt, hbodyFits⟩, ⟨hlt', hotherFits⟩, hrestFits⟩ := hfits
    simp only [steps, List.cons_append, List.append_assoc, List.forall_mem_cons,
      List.forall_mem_append] at hpay
    obtain ⟨-, hbodyPay, -, hotherPay, -, hrestPay⟩ := hpay
    exact grows_ifElse (hbody hbodyFits hbodyPay) (hother hotherFits hotherPay)
      (hrest hrestFits hrestPay) hlt hlt'
  | loop count body rest hbody hrest =>
    obtain ⟨hlt, hbodyFits, hrestFits⟩ := hfits
    simp only [steps, List.cons_append, List.forall_mem_cons, List.forall_mem_append] at hpay
    obtain ⟨-, hbodyPay, -, hrestPay⟩ := hpay
    exact grows_loop (hbody hbodyFits hbodyPay) (hrest hrestFits hrestPay) hlt
  | switch var front arms rest hfront harms hrest =>
    obtain ⟨hlt, hfrontFits, harmsFits, hrestFits⟩ := hfits
    simp only [steps, List.cons_append, List.append_assoc, List.forall_mem_cons,
      List.forall_mem_append] at hpay
    obtain ⟨-, hfrontPay, harmsPay, -, hrestPay⟩ := hpay
    exact grows_switch (hfront hfrontFits hfrontPay) (harms harmsFits harmsPay)
      (hrest hrestFits hrestPay) hlt
  | arm label body more hbody hmore =>
    obtain ⟨hlt, hbodyFits, hmoreFits⟩ := hfits
    simp only [steps, List.cons_append, List.forall_mem_cons, List.forall_mem_append] at hpay
    obtain ⟨-, hbodyPay, hmorePay⟩ := hpay
    exact grows_arm (hbody hbodyFits hbodyPay) (hmore hmoreFits hmorePay) hlt

/-- **The steps of an outline that fits put down its bytes and declare its entry points**, whatever
was there before. -/
theorem foldl_steps {o : Outline .row} (hfits : o.Fits) (hpay : ∀ s ∈ o.steps, s.PayloadFits)
    (b : Builder) :
    o.steps.foldl Builder.apply b = b.grow o.encode (o.entries b.code.size) :=
  grows hfits hpay b

/-! ### Outlines without a mistake fit -/

/-- An outline fits if its steps leave no mistake, the last arm of a switch being closed. -/
def Checked : {k : Kind} → Outline k → Prop
  | .row, o => ∀ b : Builder, (o.steps.foldl Builder.apply b).error = none → o.Fits
  | .arms, o => ∀ b : Builder, (o.steps.foldl Builder.apply b).closeArm.error = none → o.Fits

theorem Checked.grows {o : Outline .row} (h : o.Checked) {b : Builder}
    (herr : (o.steps.foldl Builder.apply b).error = none) : o.Grows :=
  Outline.grows (h b herr) (Builder.payloadFits_of_foldl herr)

theorem checked_ifThen {body rest : Outline .row} (hbody : body.Checked) (hrest : rest.Checked) :
    (ifThen body rest).Checked := by
  intro b h
  simp only [steps, List.cons_append, List.foldl_cons, List.foldl_append] at h
  have hclosed := Builder.error_foldl h
  have hinner := Builder.error_apply hclosed
  rw [(hbody.grows hinner).closed_if] at hclosed
  exact ⟨(Builder.error_patch hclosed).1, hbody _ hinner, hrest _ h⟩

theorem checked_loop {count : UInt16} {body rest : Outline .row} (hbody : body.Checked)
    (hrest : rest.Checked) : (loop count body rest).Checked := by
  intro b h
  simp only [steps, List.cons_append, List.foldl_cons, List.foldl_append] at h
  have hclosed := Builder.error_foldl h
  have hinner := Builder.error_apply hclosed
  rw [(hbody.grows hinner).closed_loop] at hclosed
  exact ⟨(Builder.error_patch hclosed).1, hbody _ hinner, hrest _ h⟩

theorem checked_ifElse {body other rest : Outline .row} (hbody : body.Checked)
    (hother : other.Checked) (hrest : rest.Checked) : (ifElse body other rest).Checked := by
  intro b h
  simp only [steps, List.cons_append, List.foldl_cons, List.foldl_append] at h
  -- the mistakes of the steps are looked for from behind: the last step without one has none before
  have hclosed := Builder.error_foldl h
  have hotherErr := Builder.error_apply hclosed
  have helse := Builder.error_foldl hotherErr
  have hinner := Builder.error_apply helse
  have hthen := (hbody.grows hinner).closed_then b
  rw [hthen] at helse hclosed
  rw [(hother.grows hotherErr).closed_else] at hclosed
  exact ⟨⟨(Builder.error_patch helse).1, hbody _ hinner⟩,
    ⟨(Builder.error_patch hclosed).1, hother _ hotherErr⟩, hrest _ h⟩

theorem checked_switch {var : UInt8} {front rest : Outline .row} {arms : Outline .arms}
    (hfront : front.Checked) (harms : arms.Checked) (hrest : rest.Checked) :
    (switch var front arms rest).Checked := by
  intro b h
  simp only [steps, List.cons_append, List.foldl_cons, List.foldl_append] at h
  -- an error stays, so none at the end means none at any step before
  have hclosed := Builder.error_foldl h
  have harmsErr := Builder.error_endSwitch hclosed
  have hfold := Builder.error_closeArm harmsErr
  have hinner := Builder.error_foldl hfold
  have harmsGrow := Outline.grows (harms _ harmsErr) (Builder.payloadFits_of_foldl hfold)
  rw [(hfront.grows hinner).closed_switch b harmsGrow] at hclosed
  exact ⟨(Builder.error_patch hclosed).1, hfront _ hinner, harms _ harmsErr, hrest _ h⟩

theorem checked_arm {label : Option UInt16} {body : Outline .row} {more : Outline .arms}
    (hbody : body.Checked) (hmore : more.Checked) : (arm label body more).Checked := by
  intro b h
  simp only [steps, List.cons_append, List.foldl_cons, List.foldl_append] at h
  have hfits := hmore _ h
  have hfold := Builder.error_closeArm h
  have hinner := Builder.error_foldl hfold
  have hgrows := Outline.grows hfits (Builder.payloadFits_of_foldl hfold)
  rw [hgrows] at h
  -- only an arm with a value has a length to be filled in
  refine ⟨fun hlabel => ?_, hbody _ hinner, hfits⟩
  obtain ⟨value, rfl⟩ := Option.isSome_iff_exists.mp hlabel
  have hclosed := (hbody.grows hinner).closed_case b value
  exact (Builder.error_patch (hclosed ▸ h :)).1

theorem checked {k : Kind} (o : Outline k) : o.Checked := by
  induction o with
  | done => rename_i k; cases k <;> exact fun b _ => trivial
  | step s rest hrest => exact fun b h => hrest _ h
  | ifThen body rest hbody hrest => exact checked_ifThen hbody hrest
  | ifElse body other rest hbody hother hrest => exact checked_ifElse hbody hother hrest
  | loop count body rest hbody hrest => exact checked_loop hbody hrest
  | switch var front arms rest hfront harms hrest => exact checked_switch hfront harms hrest
  | arm label body more hbody hmore => exact checked_arm hbody hmore

/-- **An outline whose steps leave no mistake fits.** -/
theorem fits_of_error {o : Outline .row} {b : Builder}
    (h : (o.steps.foldl Builder.apply b).error = none) : o.Fits :=
  o.checked b h

/-! ### Steps without a mistake have an outline -/

/-- **How the steps behind a row close what is open**, from the innermost block on, each followed by
what comes behind it. -/
inductive Tail : List Opening → List Step → Prop
  | nil : Tail [] []
  | endIf {a open_ tail} (rest : Outline .row) (h : Tail open_ tail) :
    Tail (.ifBlock a :: open_) (.endIf :: rest.steps ++ tail)
  | elseBranch {a open_ tail} (other rest : Outline .row) (h : Tail open_ tail) :
    Tail (.ifBlock a :: open_) (.elseStart :: other.steps ++ .endIf :: rest.steps ++ tail)
  | endElse {a open_ tail} (rest : Outline .row) (h : Tail open_ tail) :
    Tail (.elseBlock a :: open_) (.endIf :: rest.steps ++ tail)
  | forEnd {a open_ tail} (rest : Outline .row) (h : Tail open_ tail) :
    Tail (.forLoop a :: open_) (.forEnd :: rest.steps ++ tail)
  | endSwitch {a open_ tail} (arms : Outline .arms) (rest : Outline .row) (h : Tail open_ tail) :
    Tail (.switch a :: open_) (arms.steps ++ .endSwitch :: rest.steps ++ tail)
  | endArm {o a open_ tail} (ho : o.isArm = true) (h : Tail (.switch a :: open_) tail) :
    Tail (o :: .switch a :: open_) tail

/-- An open arm stands in a switch. -/
theorem Tail.of_arm {o : Opening} {open_ : List Opening} {tail : List Step} (ho : o.isArm = true)
    (h : Tail (o :: open_) tail) :
    ∃ (a : Nat) (outer : List Opening) (arms : Outline .arms) (rest : Outline .row)
      (tail' : List Step), open_ = .switch a :: outer ∧
        tail = arms.steps ++ .endSwitch :: rest.steps ++ tail' ∧ Tail outer tail' := by
  cases h with
  | endIf | elseBranch | endElse | forEnd | endSwitch => exact nomatch ho
  | endArm _ h =>
    cases h with
    | endSwitch arms rest h => exact ⟨_, _, arms, rest, _, rfl, rfl, h⟩
    | endArm ho _ => exact nomatch ho

/-- Steps that make no mistake and close everything are a row and what closes the open blocks. -/
theorem exists_tail {post : List Step} {b : Builder}
    (herr : (post.foldl Builder.apply b).error = none)
    (hopen : (post.foldl Builder.apply b).opened = []) :
    ∃ (o : Outline .row) (tail : List Step), post = o.steps ++ tail ∧ Tail b.opened tail := by
  -- from the last step back: each step is put in front of what the steps behind it have become
  induction post generalizing b with
  | nil => exact ⟨done, [], rfl, by rw [show b.opened = [] from hopen]; exact .nil⟩
  | cons s post ih =>
    obtain ⟨c, tail, hpost, htail⟩ := ih herr hopen
    by_cases hfree : s.isFree = true
    · rw [Builder.opened_of_free hfree] at htail
      exact ⟨step ⟨s, hfree⟩ c, tail, by rw [hpost]; rfl, htail⟩
    have hnests := Builder.nests_apply (Step.isNamed_of_not_free hfree) (Builder.error_foldl herr)
    generalize (b.apply s).opened = open' at hnests htail
    generalize b.opened = open_ at hnests ⊢
    cases hnests with
    | plain hs => exact absurd (Step.isFree_of_plain hs) hfree
    | opensIf =>
      cases htail with
      | endIf rest h => exact ⟨ifThen c rest, _, by rw [hpost]; simp [steps], h⟩
      | elseBranch other rest h => exact ⟨ifElse c other rest, _, by rw [hpost]; simp [steps], h⟩
      | endArm ho _ => exact absurd ho Bool.false_ne_true
    | opensElse =>
      cases htail with
      | endElse rest h => exact ⟨done, _, by rw [hpost]; simp [steps], .elseBranch c rest h⟩
      | endArm ho _ => exact absurd ho Bool.false_ne_true
    | closesIf => exact ⟨done, _, by rw [hpost]; rfl, .endIf c htail⟩
    | closesElse => exact ⟨done, _, by rw [hpost]; rfl, .endElse c htail⟩
    | @opensLoop _ n =>
      cases htail with
      | forEnd rest h => exact ⟨loop n c rest, _, by rw [hpost]; simp [steps], h⟩
      | endArm ho _ => exact absurd ho Bool.false_ne_true
    | closesLoop => exact ⟨done, _, by rw [hpost]; rfl, .forEnd c htail⟩
    | @opensSwitch _ v =>
      cases htail with
      | endSwitch arms rest h => exact ⟨switch v c arms rest, _, by rw [hpost]; simp [steps], h⟩
      | endArm ho _ => exact absurd ho Bool.false_ne_true
    | opensArm label ho _ =>
      obtain ⟨a, rest₀, arms, rest, tail', rfl, rfl, h⟩ := htail.of_arm ho
      exact ⟨done, _, by rw [hpost]; simp [steps], .endSwitch (arm label c arms) rest h⟩
    | nextArm label ho ho' =>
      obtain ⟨a, rest₀, arms, rest, tail', rfl, rfl, h⟩ := htail.of_arm ho'
      exact ⟨done, _, by rw [hpost]; simp [steps],
        .endArm ho (.endSwitch (arm label c arms) rest h)⟩
    | closesSwitch => exact ⟨done, _, by rw [hpost]; rfl, .endSwitch done c htail⟩
    | closesArms ho => exact ⟨done, _, by rw [hpost]; rfl, .endArm ho (.endSwitch done c htail)⟩

/-- **Steps that leave no mistake and nothing open are those of an outline.** -/
theorem exists_of_run {steps : List Step} (herr : (Builder.run steps).error = none)
    (hopen : (Builder.run steps).opened = []) : ∃ o : Outline .row, o.steps = steps := by
  obtain ⟨o, tail, rfl, htail⟩ := exists_tail herr hopen
  cases htail with
  | nil => exact ⟨o, (List.append_nil _).symm⟩

end Outline

/-! ### What can be built -/

namespace Builder

/-- A builder gives a script if it has seen no mistake, has nothing open, and its entry points lie
in its code. -/
theorem build_isOk_iff (b : Builder) :
    (∃ s, b.build = .ok s) ↔
      b.error = none ∧ b.opened = [] ∧ ∀ e ∈ b.entryPoints, e < b.code.size := by
  constructor
  · rintro ⟨s, hs⟩
    obtain ⟨⟨herr, hopen⟩, hdata, hentries⟩ := build_eq_ok hs
    exact ⟨herr, hopen, hdata ▸ hentries ▸ s.entries_lt⟩
  · rintro ⟨herr, hopen, hlt⟩
    refine ⟨⟨b.code, b.entryPoints, hlt⟩, ?_⟩
    have hmistake : b.mistake? = none := by simp [mistake?, herr, hopen]
    have hparts : Script.ofParts b.code b.entryPoints = .ok ⟨b.code, b.entryPoints, hlt⟩ :=
      Script.ofParts_eq_ok_iff.mpr ⟨rfl, rfl⟩
    simp only [build, hmistake, hparts]

/-- What the steps of an outline that fits leave. -/
theorem run_outline {o : Outline .row} (hfits : o.Fits) (hpay : ∀ s ∈ o.steps, s.PayloadFits) :
    (run o.steps).code.size = o.size ∧ (run o.steps).entryPoints = o.entryPoints ∧
      (run o.steps).error = none ∧ (run o.steps).opened = [] := by
  have hrun : run o.steps = ({} : Builder).grow o.encode (o.entries 0) :=
    o.foldl_steps hfits hpay {}
  rw [hrun]
  refine ⟨by rw [size_grow]; exact Nat.zero_add _, ?_, rfl, rfl⟩
  simp [entryPoints, Outline.entryPoints, grow]

/-- **The assembler accepts exactly its block grammar.** Steps can be built if and only if they are
those of an outline, every instruction is given no more payload than it holds, the length of every
block fits its field, and every entry point lies in the code. -/
theorem build_ok_iff_outline (steps : List Step) :
    (∃ s, (run steps).build = .ok s) ↔
      ∃ o : Outline .row, o.steps = steps ∧
        (∀ op payload, .instruction op payload ∈ steps → payload.length ≤ op.size - 1) ∧
        o.Fits ∧ ∀ e ∈ o.entryPoints, e < o.size := by
  rw [build_isOk_iff]
  constructor
  · rintro ⟨herr, hopen, hlt⟩
    obtain ⟨o, rfl⟩ := Outline.exists_of_run herr hopen
    have hpay := payloadFits_of_foldl herr
    have hfits := Outline.fits_of_error herr
    obtain ⟨hsize, hentries, -⟩ := run_outline hfits hpay
    exact ⟨o, rfl, fun op payload hs => hpay _ hs, hfits, hsize ▸ hentries ▸ hlt⟩
  · rintro ⟨o, rfl, hinstr, hfits, hlt⟩
    have hpay : ∀ s ∈ o.steps, s.PayloadFits := by
      intro s hs
      cases s with
      | instruction op payload => exact hinstr op payload hs
      | _ => trivial
    obtain ⟨hsize, hentries, herr, hopen⟩ := run_outline hfits hpay
    exact ⟨herr, hopen, by rw [hsize, hentries]; exact hlt⟩

end Builder

end RoomScript
