import RoomScript.Proofs.Assembly
import RoomScript.Proofs.Reading

/-!
# Places in nested code

A place in a tree is a piece of its code together with what is around it, and how one gets there:
the steps written before it and the address it stands at. `Place` is a walk over the tree from left
to right, one step at a time.

Several places can share an address, since the end of an else and the end of an arm write nothing.
From each of them the walk goes on, without writing, to the place that writes the instruction found
at that address, or to the end of the script.

**Main statements.** `Place.steps_eq` and `Place.encode_eq`: what stands at a place is what is left
of the steps and of the bytes. `Place.skip`: behind a piece of code there is a place again.
`Place.size_run`: the address of a place is the size of the code written so far.
`Place.exists_of_steps`: every point between two steps is a place. `Place.settle`: at an address
where the code goes on some place writes an instruction.
-/

namespace RoomScript

open Code Layout Payload

/-! ### What is around a piece of code -/

/-- **What is around a piece of code**: the blocks it stands in, from the innermost on, each with
what comes behind it. -/
inductive Context : Code.Kind → Type
  | top : Context .row
  /-- In an if without an else. -/
  | thenOnly (rest : Code .row) (outer : Context .row) : Context .row
  /-- In an if with an else. -/
  | thenElse (other rest : Code .row) (outer : Context .row) : Context .row
  | elsePart (rest : Code .row) (outer : Context .row) : Context .row
  | loop (count : UInt16) (body rest : Code .row) (outer : Context .row) : Context .row
  | switch (rest : Code .row) (outer : Context .row) : Context .arms
  | arm (more : Code .arms) (outer : Context .arms) : Context .row

namespace Context

/-- The steps to come. -/
def steps : {k : Kind} → Context k → List Step
  | _, top => []
  | _, thenOnly rest outer => .endIf :: rest.steps ++ outer.steps
  | _, thenElse other rest outer =>
    .elseStart :: other.steps ++ .endIf :: rest.steps ++ outer.steps
  | _, elsePart rest outer => .endIf :: rest.steps ++ outer.steps
  | _, loop _ _ rest outer => .forEnd :: rest.steps ++ outer.steps
  | _, switch rest outer => .endSwitch :: rest.steps ++ outer.steps
  | _, arm more outer => more.steps ++ outer.steps

/-- The bytes to come. -/
def encode : {k : Kind} → Context k → List UInt8
  | _, top => []
  | _, thenOnly rest outer => Opcode.endIf.bytes [] ++ rest.encode ++ outer.encode
  | _, thenElse other rest outer =>
    Opcode.elseStart.header 0 (Opcode.elseStart.size + other.size) [] ++ other.encode ++
      rest.encode ++ outer.encode
  | _, elsePart rest outer => rest.encode ++ outer.encode
  | _, loop _ _ rest outer => Opcode.forEnd.bytes [] ++ rest.encode ++ outer.encode
  | _, switch rest outer => Opcode.endSwitch.bytes [] ++ rest.encode ++ outer.encode
  | _, arm more outer => more.encode ++ outer.encode

/-- The lengths to come fit their fields. -/
def Fits : {k : Kind} → Context k → Prop
  | _, top => True
  | _, thenElse other rest outer =>
    (Opcode.elseStart.size + other.size < 65536 ∧ other.Fits) ∧ rest.Fits ∧ outer.Fits
  | _, thenOnly rest outer | _, elsePart rest outer | _, loop _ _ rest outer
  | _, switch rest outer => rest.Fits ∧ outer.Fits
  | _, arm more outer => more.Fits ∧ outer.Fits

end Context

/-- **The places of a tree**: the steps before a place, its address, the code that stands there and
what is around it. -/
inductive Place (T : Code .row) :
    {k : Kind} → List Step → Nat → Code k → Context k → Prop
  | start : Place T [] 0 T .top
  | pastStep {pre a s rest ctx} (h : Place T pre a (.step s rest) ctx) :
    Place T (pre ++ [s.val]) (a + s.op.size) rest ctx
  | intoThen {pre a body rest ctx} (h : Place T pre a (.ifThen body rest) ctx) :
    Place T (pre ++ [.ifStart]) (a + Opcode.ifStart.size) body (.thenOnly rest ctx)
  | intoThenElse {pre a body other rest ctx} (h : Place T pre a (.ifElse body other rest) ctx) :
    Place T (pre ++ [.ifStart]) (a + Opcode.ifStart.size) body (.thenElse other rest ctx)
  | pastThen {pre a rest ctx} (h : Place T pre a .done (.thenOnly rest ctx)) :
    Place T (pre ++ [.endIf]) (a + Opcode.endIf.size) rest ctx
  | intoElse {pre a other rest ctx} (h : Place T pre a .done (.thenElse other rest ctx)) :
    Place T (pre ++ [.elseStart]) (a + Opcode.elseStart.size) other (.elsePart rest ctx)
  | pastElse {pre a rest ctx} (h : Place T pre a .done (.elsePart rest ctx)) :
    Place T (pre ++ [.endIf]) a rest ctx
  | intoLoop {pre a count body rest ctx} (h : Place T pre a (.loop count body rest) ctx) :
    Place T (pre ++ [.forLoop count]) (a + Opcode.forLoop.size) body (.loop count body rest ctx)
  | pastLoop {pre a count body rest ctx} (h : Place T pre a .done (.loop count body rest ctx)) :
    Place T (pre ++ [.forEnd]) (a + Opcode.forEnd.size) rest ctx
  | intoSwitch {pre a var arms rest ctx} (h : Place T pre a (.switch var arms rest) ctx) :
    Place T (pre ++ [.switch var]) (a + Opcode.switch.size) arms (.switch rest ctx)
  | intoArm {pre a label body more ctx} (h : Place T pre a (.arm label body more) ctx) :
    Place T (pre ++ [armStep label]) (a + (armOp label).size) body (.arm more ctx)
  | pastArm {pre a more ctx} (h : Place T pre a .done (.arm more ctx)) : Place T pre a more ctx
  | pastSwitch {pre a rest ctx} (h : Place T pre a (.done : Code .arms) (.switch rest ctx)) :
    Place T (pre ++ [.endSwitch]) (a + Opcode.endSwitch.size) rest ctx

namespace Place

variable {T : Code .row} {k : Kind} {pre : List Step} {a : Nat} {cur : Code k} {ctx : Context k}

/-- **What is left of the steps.** -/
theorem steps_eq (h : Place T pre a cur ctx) : T.steps = pre ++ (cur.steps ++ ctx.steps) := by
  induction h with
  | start => simp [Context.steps]
  | _ h ih => rw [ih]; simp [Code.steps, Context.steps]

/-- Stepping over the first of the bytes that are left. -/
private theorem extend_bytes {xs left i left' : List UInt8} {n : Nat}
    (h : ∃ bytes, xs = bytes ++ left ∧ bytes.length = a) (hleft : left = i ++ left')
    (hlen : i.length = n) : ∃ bytes, xs = bytes ++ left' ∧ bytes.length = a + n := by
  obtain ⟨bytes, rfl, rfl⟩ := h
  exact ⟨bytes ++ i, by rw [hleft, List.append_assoc], by rw [List.length_append, hlen]⟩

/-- **What is left of the bytes.** -/
theorem encode_eq (h : Place T pre a cur ctx) :
    ∃ bytes, T.encode = bytes ++ (cur.encode ++ ctx.encode) ∧ bytes.length = a := by
  induction h with
  | start => exact ⟨[], by simp [Context.encode], rfl⟩
  | @pastStep _ _ s rest _ h ih =>
    exact extend_bytes ih (i := s.bytes) (by simp [Code.encode]) s.length_bytes
  | @intoThen _ _ body rest _ h ih =>
    exact extend_bytes ih (i := Opcode.ifStart.header 0 (body.size + Opcode.endIf.size) [])
      (by simp [Code.encode, Context.encode, Code.size]) rfl
  | @intoThenElse _ _ body other rest _ h ih =>
    exact extend_bytes ih (i := Opcode.ifStart.header 0 (Opcode.ifStart.size + body.size) [])
      (by simp [Code.encode, Context.encode, Code.size]) rfl
  | pastThen h ih =>
    exact extend_bytes ih (i := Opcode.endIf.bytes []) (by simp [Code.encode, Context.encode]) rfl
  | @intoElse _ _ other rest _ h ih =>
    exact extend_bytes ih
      (i := Opcode.elseStart.header 0 (Opcode.elseStart.size + other.size) [])
      (by simp [Code.encode, Context.encode]) rfl
  | @intoLoop _ _ count body rest _ h ih =>
    exact extend_bytes ih
      (i := Opcode.forLoop.header 0 (body.size + Opcode.forEnd.size) (wordBytes count))
      (by simp [Code.encode, Context.encode, Code.size]) rfl
  | pastLoop h ih =>
    exact extend_bytes ih (i := Opcode.forEnd.bytes []) (by simp [Code.encode, Context.encode]) rfl
  | @intoSwitch _ _ var arms rest _ h ih =>
    exact extend_bytes ih (i := Opcode.switch.header var (arms.size + Opcode.endSwitch.size) [])
      (by simp [Code.encode, Context.encode, Code.size]) rfl
  | @intoArm _ _ label body more _ h ih =>
    exact extend_bytes ih (i := armHeader label body.size)
      (by simp [Code.encode, Context.encode, Code.size]) (length_armHeader _ _)
  | pastSwitch h ih =>
    exact extend_bytes ih (i := Opcode.endSwitch.bytes []) (by simp [Code.encode, Context.encode])
      rfl
  -- the end of an else and the end of an arm write nothing
  | pastElse h ih | pastArm h ih => simpa [Code.encode, Context.encode] using ih

theorem fits (hT : T.Fits) (h : Place T pre a cur ctx) : cur.Fits ∧ ctx.Fits := by
  induction h with
  | start => exact ⟨hT, trivial⟩
  | pastStep h ih => exact ih
  | intoThen h ih => exact ⟨ih.1.2.1, ih.1.2.2, ih.2⟩
  | intoThenElse h ih => exact ⟨ih.1.1.2, ih.1.2.1, ih.1.2.2, ih.2⟩
  | intoElse h ih => exact ⟨ih.2.1.2, ih.2.2⟩
  | intoLoop h ih => exact ⟨ih.1.2.1, ih.1.2.2, ih.2⟩
  | intoSwitch h ih => exact ⟨ih.1.2.1, ih.1.2.2, ih.2⟩
  | intoArm h ih => exact ⟨ih.1.2.1, ih.1.2.2, ih.2⟩
  | pastThen h ih | pastElse h ih | pastLoop h ih | pastArm h ih | pastSwitch h ih => exact ih.2

/-! ### Skipping a piece of code -/

/-- The walk comes out behind a piece of code. -/
theorem skip {c : Code k} (more : Code k) (h : Place T pre a (c.append more) ctx) :
    Place T (pre ++ c.steps) (a + c.size) more ctx := by
  -- on the code that is passed: a block is gone into, passed and left again, with nothing behind it
  -- as long as one is inside
  induction c generalizing pre a with
  | done => simpa [Code.steps, Code.append] using h
  | step s rest ih =>
    have hrest := ih more h.pastStep
    simpa [Code.steps, Nat.add_assoc] using hrest
  | ifThen body rest ihbody ihrest =>
    have hbody := ihbody .done (by rw [append_done]; exact h.intoThen)
    have hrest := ihrest more hbody.pastThen
    simpa [Code.steps, Nat.add_assoc] using hrest
  | ifElse body other rest ihbody ihother ihrest =>
    have hbody := ihbody .done (by rw [append_done]; exact h.intoThenElse)
    have hother := ihother .done (by rw [append_done]; exact hbody.intoElse)
    have hrest := ihrest more hother.pastElse
    simpa [Code.steps, Nat.add_assoc] using hrest
  | loop count body rest ihbody ihrest =>
    have hbody := ihbody .done (by rw [append_done]; exact h.intoLoop)
    have hrest := ihrest more hbody.pastLoop
    simpa [Code.steps, Nat.add_assoc] using hrest
  | switch var arms rest iharms ihrest =>
    have harms := iharms .done (by rw [append_done]; exact h.intoSwitch)
    have hrest := ihrest more harms.pastSwitch
    simpa [Code.steps, Nat.add_assoc] using hrest
  | arm label body more' ihbody ihmore =>
    have hbody := ihbody .done (by rw [append_done]; exact h.intoArm)
    have hmore := ihmore more hbody.pastArm
    simpa [Code.steps, Nat.add_assoc] using hmore

/-- The walk comes to the end of a piece of code. -/
theorem skip_all (h : Place T pre a cur ctx) :
    Place T (pre ++ cur.steps) (a + cur.size) .done ctx :=
  skip .done (by rwa [append_done])

/-! Every length in a header leads to a place. -/

section Lengths

variable {body other rest : Code .row} {outer : Context .row}

/-- An if without an else resumes behind it. -/
theorem resume_ifThen (hT : T.Fits) (h : Place T pre a (.ifThen body rest) outer) {p : Block}
    (hp : decode Block (Opcode.ifStart.header 0 (body.size + Opcode.endIf.size) []).toArray =
      .ok p) : ∃ pre', Place T pre' (a + Opcode.ifStart.size + p.length.toNat) rest outer := by
  rw [decode_ifStart] at hp
  cases hp
  rw [toNat_length (h.fits hT).1.1, ← Nat.add_assoc]
  exact ⟨_, h.intoThen.skip_all.pastThen⟩

/-- An if with an else resumes in it. -/
theorem resume_ifElse (hT : T.Fits) (h : Place T pre a (.ifElse body other rest) outer) {p : Block}
    (hp : decode Block (Opcode.ifStart.header 0 (Opcode.ifStart.size + body.size) []).toArray =
      .ok p) :
    ∃ pre', Place T pre' (a + Opcode.ifStart.size + p.length.toNat) other
      (.elsePart rest outer) := by
  rw [decode_ifStart] at hp
  cases hp
  -- the length is that of the body and of the header of the else, which is as long as that of an if
  rw [toNat_length (h.fits hT).1.1.1, Nat.add_comm Opcode.ifStart.size body.size, ← Nat.add_assoc]
  exact ⟨_, h.intoThenElse.skip_all.intoElse⟩

/-- An else is skipped to what is behind it. -/
theorem skip_else (hT : T.Fits) (h : Place T pre a .done (.thenElse other rest outer)) {p : Block}
    (hp : decode Block
      (Opcode.elseStart.header 0 (Opcode.elseStart.size + other.size) []).toArray = .ok p) :
    ∃ pre', Place T pre' (a + p.length.toNat) rest outer := by
  rw [decode_elseStart] at hp
  cases hp
  rw [toNat_length (h.fits hT).2.1.1, ← Nat.add_assoc]
  exact ⟨_, h.intoElse.skip_all.pastElse⟩

/-- A loop is left to what is behind it. -/
theorem break_loop (hT : T.Fits) {count : UInt16} (h : Place T pre a (.loop count body rest) outer)
    {p : ForLoop} (hp : decode ForLoop
      (Opcode.forLoop.header 0 (body.size + Opcode.forEnd.size) (wordBytes count)).toArray =
      .ok p) :
    p.count = count ∧
      ∃ pre', Place T pre' (a + Opcode.forLoop.size + p.length.toNat) rest outer := by
  rw [decode_forLoop] at hp
  cases hp
  rw [toNat_length (h.fits hT).1.1, ← Nat.add_assoc]
  exact ⟨rfl, _, h.intoLoop.skip_all.pastLoop⟩

/-- A switch is left to what is behind it. -/
theorem break_switch (hT : T.Fits) {var : UInt8} {arms : Code .arms}
    (h : Place T pre a (.switch var arms rest) outer) {p : Switch} (hp : decode Switch
      (Opcode.switch.header var (arms.size + Opcode.endSwitch.size) []).toArray = .ok p) :
    p.var = var ∧
      ∃ pre', Place T pre' (a + Opcode.switch.size + p.length.toNat) rest outer := by
  rw [decode_switch] at hp
  cases hp
  rw [toNat_length (h.fits hT).1.1, ← Nat.add_assoc]
  exact ⟨rfl, _, h.intoSwitch.skip_all.pastSwitch⟩

end Lengths

/-- **The search for an arm ends at a place**: in the arm that takes the value, or behind the
switch. -/
theorem chosen {T : Code .row} {pre : List Step} {a : Nat} {arms : Code .arms} {rest : Code .row}
    {outer : Context .row} (value : Int32) (h : Place T pre a arms (.switch rest outer)) :
    (∃ body more pre' a', arms.chosen value = some (body, more) ∧
      arms.target value a = .body a' ∧ Place T pre' a' body (.arm more (.switch rest outer))) ∨
    (∃ pre' a', arms.chosen value = none ∧ arms.target value a = .behind a' ∧
      Place T pre' a' rest outer) := by
  match arms with
  | .done => exact .inr ⟨_, _, rfl, by rw [Code.target], h.pastSwitch⟩
  | .arm none body more => exact .inl ⟨body, more, _, _, rfl, by rw [Code.target]; rfl, h.intoArm⟩
  | .arm (some v) body more =>
    by_cases hv : (v.toNat : Int) = value.toInt
    · refine .inl ⟨body, more, _, _, by rw [Code.chosen, if_pos hv], ?_, h.intoArm⟩
      rw [Code.target, if_pos hv]
      rfl
    · rw [Code.chosen, Code.target, if_neg hv, if_neg hv]
      exact chosen value h.intoArm.skip_all.pastArm

/-! ### Places and the assembler -/

end Place

/-- The kinds of blocks. -/
inductive Shape
  | thenPart
  | elsePart
  | loop
  | switch
  | arm
  deriving DecidableEq, Repr

/-- The kind of an open block. -/
def Opening.shape : Opening → Shape
  | .ifBlock _ => .thenPart
  | .elseBlock _ => .elsePart
  | .forLoop _ => .loop
  | .switch _ => .switch
  | .caseArm _ | .defaultCase => .arm

/-- The kinds of the blocks around a place, from the innermost on. -/
def Context.shapes : {k : Kind} → Context k → List Shape
  | _, top => []
  | _, thenOnly _ outer | _, thenElse _ _ outer => .thenPart :: outer.shapes
  | _, elsePart _ outer => .elsePart :: outer.shapes
  | _, loop _ _ _ outer => .loop :: outer.shapes
  | _, switch _ outer => .switch :: outer.shapes
  | _, arm _ outer => .arm :: outer.shapes

theorem Opening.isArm_iff {o : Opening} : o.isArm = true ↔ o.shape = .arm := by
  cases o <;> simp [isArm, shape]

namespace Place

variable {T : Code .row} {k : Kind} {pre : List Step} {a : Nat} {cur : Code k} {ctx : Context k}

/-- The open blocks while the steps before a place are carried out: those around it, and between two
arms also the arm before. -/
def Matches {k : Kind} (ctx : Context k) (opened : List Opening) : Prop :=
  opened.map Opening.shape = ctx.shapes ∨
    k = .arms ∧ opened.map Opening.shape = .arm :: ctx.shapes

theorem Matches.row {ctx : Context .row} {opened : List Opening} (h : Matches ctx opened) :
    opened.map Opening.shape = ctx.shapes :=
  h.resolve_right fun h => nomatch h.1

/-- Between two arms nothing but the arm before is open in the switch. -/
theorem Matches.closeArm {ctx : Context .arms} {b : Builder} (h : Matches ctx b.opened) :
    b.closeArm.opened.map Opening.shape = ctx.shapes := by
  cases ctx with
  | switch rest outer =>
    -- the first arm has none before it to close
    rcases b.opened_closeArm with ⟨o, ho, hopen⟩ | ⟨hopen, htop⟩
    · rw [Opening.isArm_iff] at ho
      rcases h with h | ⟨-, h⟩
      · rw [hopen, List.map_cons, ho] at h
        exact nomatch h
      · rw [hopen, List.map_cons] at h
        exact (List.cons.inj h).2
    · rw [hopen]
      rcases h with h | ⟨-, h⟩
      · exact h
      · obtain ⟨o, outer, hb, ho, -⟩ := List.map_eq_cons_iff.mp h
        rw [← Opening.isArm_iff, htop o (by rw [hb]; rfl)] at ho
        exact nomatch ho

/-- The steps before a place are carried out without a mistake, and the last of them writes what its
width says. -/
theorem run_concat {s : Step} (herr : (Builder.run T.steps).error = none)
    (h : Place T (pre ++ [s]) a cur ctx) :
    Builder.run (pre ++ [s]) = (Builder.run pre).apply s ∧
      (Builder.run (pre ++ [s])).code.size =
        (Builder.run pre).code.size + s.width (Builder.run pre).opened := by
  have hpost := h.steps_eq.symm
  have hs : s.isNamed = true := (named_of_mem_steps (c := T) (by rw [← hpost]; simp)).1
  have hrun : Builder.run (pre ++ [s]) = (Builder.run pre).apply s := by
    simp [Builder.run, List.foldl_append]
  have hnone : ((Builder.run pre).apply s).error = none := by
    rw [← hpost, Builder.run, List.foldl_append] at herr
    rw [← hrun]
    exact Builder.error_foldl herr
  exact ⟨hrun, hrun ▸ Builder.size_apply hs hnone⟩

/-- The header of a block has written its bytes, and its block is open on top of those around it. -/
theorem size_opens {k' : Kind} {cur' : Code k'} {ctx' : Context k'} {ctx : Context .row} {s : Step}
    {block : Opening} {width : Nat} (herr : (Builder.run T.steps).error = none)
    (hnext : Place T (pre ++ [s]) (a + width) cur' ctx')
    (h : (Builder.run pre).code.size = a ∧ Matches ctx (Builder.run pre).opened)
    (hopens : ((Builder.run pre).apply s).opened = block :: (Builder.run pre).opened)
    (hwidth : s.width (Builder.run pre).opened = width)
    (hshapes : ctx'.shapes = block.shape :: ctx.shapes) :
    (Builder.run (pre ++ [s])).code.size = a + width ∧
      Matches ctx' (Builder.run (pre ++ [s])).opened := by
  obtain ⟨hrun, hsize⟩ := run_concat herr hnext
  rw [hsize, hrun, h.1, hwidth, hopens]
  refine ⟨rfl, .inl ?_⟩
  rw [List.map_cons, h.2.row, hshapes]

/-- **The address of a place is the size of the code written so far**, and the open blocks are those
around it. -/
theorem size_run (herr : (Builder.run T.steps).error = none) (h : Place T pre a cur ctx) :
    (Builder.run pre).code.size = a ∧ Matches ctx (Builder.run pre).opened := by
  induction h with
  | start => exact ⟨rfl, .inl rfl⟩
  | @pastStep pre a s rest ctx h ih =>
    obtain ⟨hrun, -⟩ := run_concat herr h.pastStep
    rw [hrun, Builder.apply_plain, Builder.size_put, PlainStep.length_bytes, ih.1]
    exact ⟨rfl, ih.2⟩
  | intoThen h ih => exact size_opens herr h.intoThen ih rfl rfl rfl
  | intoThenElse h ih => exact size_opens herr h.intoThenElse ih rfl rfl rfl
  | pastThen h ih =>
    -- the block to be closed is the one that the place stands in
    obtain ⟨hrun, hsize⟩ := run_concat herr h.pastThen
    obtain ⟨o, outer, hopen, ho, houter⟩ := List.map_eq_cons_iff.mp ih.2.row
    cases o <;> cases ho
    rw [hsize, hrun, ih.1, hopen]
    exact ⟨rfl, .inl (by simp [Builder.apply_endIf, Builder.endIf, hopen, houter])⟩
  | intoElse h ih =>
    obtain ⟨hrun, hsize⟩ := run_concat herr h.intoElse
    obtain ⟨o, outer, hopen, ho, houter⟩ := List.map_eq_cons_iff.mp ih.2.row
    cases o <;> cases ho
    rw [hsize, hrun, ih.1, hopen]
    exact ⟨rfl, .inl (by simp [Builder.apply_elseStart, Builder.elseStart, Builder.openBlock,
      Builder.closeBlock, hopen, houter, Context.shapes, Opening.shape])⟩
  | pastElse h ih =>
    obtain ⟨hrun, hsize⟩ := run_concat herr h.pastElse
    obtain ⟨o, outer, hopen, ho, houter⟩ := List.map_eq_cons_iff.mp ih.2.row
    cases o <;> cases ho
    rw [hsize, hrun, ih.1, hopen]
    refine ⟨rfl, .inl ?_⟩
    simp [Builder.apply_endIf, Builder.endIf, hopen, houter, Builder.closeBlock]
  | intoLoop h ih => exact size_opens herr h.intoLoop ih rfl rfl rfl
  | pastLoop h ih =>
    obtain ⟨hrun, hsize⟩ := run_concat herr h.pastLoop
    obtain ⟨o, outer, hopen, ho, houter⟩ := List.map_eq_cons_iff.mp ih.2.row
    cases o <;> cases ho
    rw [hsize, hrun, ih.1]
    exact ⟨rfl, .inl (by simp [Builder.apply_forEnd, Builder.forEnd, hopen, houter])⟩
  | intoSwitch h ih => exact size_opens herr h.intoSwitch ih rfl rfl rfl
  | @intoArm _ _ label _ _ _ h ih =>
    -- the arm before it is still open, and closed by the step that begins this one
    obtain ⟨hrun, hsize⟩ := run_concat herr h.intoArm
    rw [hsize, hrun, ih.1]
    cases label <;> exact ⟨rfl, .inl (congrArg (_ :: ·) ih.2.closeArm)⟩
  -- nothing is carried out at the end of an arm
  | pastArm h ih => exact ⟨ih.1, .inr ⟨rfl, ih.2.row⟩⟩
  | pastSwitch h ih =>
    obtain ⟨hrun, hsize⟩ := run_concat herr h.pastSwitch
    obtain ⟨o, outer, hopen, ho, houter⟩ := List.map_eq_cons_iff.mp ih.2.closeArm
    cases o <;> cases ho
    rw [hsize, hrun, ih.1]
    exact ⟨rfl, .inl (by simp [Builder.apply_endSwitch, Builder.endSwitch, hopen, houter])⟩

end Place

/-! ### Steps among open blocks -/

/-- Every step meets a condition on the blocks that are open when it is carried out, from the
innermost on. -/
def Builder.along (p : List Shape → Step → Bool) : Builder → List Step → Bool
  | _, [] => true
  | b, s :: rest => p (b.opened.map Opening.shape) s && (b.apply s).along p rest

namespace Builder

variable {p : List Shape → Step → Bool} {b : Builder} {steps : List Step}

theorem along_iff : b.along p steps = true ↔ ∀ pre s post, steps = pre ++ s :: post →
    p ((pre.foldl apply b).opened.map Opening.shape) s = true := by
  induction steps generalizing b with
  | nil => simp [along]
  | cons s steps ih =>
    rw [along, Bool.and_eq_true, ih]
    constructor
    · rintro ⟨hs, hrest⟩ pre s' post heq
      cases pre with
      | nil => cases heq; exact hs
      | cons s'' pre => cases heq; exact hrest pre s' post rfl
    · intro h
      exact ⟨h [] s steps rfl, fun pre s' post heq => h (s :: pre) s' post (by rw [heq]; rfl)⟩

/-- A step that meets the condition does so among some blocks. -/
theorem exists_of_along (h : b.along p steps = true) {s : Step} (hs : s ∈ steps) :
    ∃ around, p around s = true := by
  obtain ⟨pre, post, rfl⟩ := List.append_of_mem hs
  exact ⟨_, along_iff.mp h pre s post rfl⟩

/-- Among the steps that are written the same blocks are open. -/
theorem along_written (h : ({} : Builder).along p steps = true) :
    ({} : Builder).along p (written steps) = true := by
  refine along_iff.mpr fun pre' s post' heq => ?_
  obtain ⟨pre, post, rfl, rfl, -⟩ := exists_of_written heq
  change p ((run (written pre)).opened.map Opening.shape) s = true
  rw [opened_written]
  exact along_iff.mp h pre s post rfl

end Builder

namespace Place

variable {T : Code .row} {k : Kind} {pre : List Step} {a : Nat} {cur : Code k} {ctx : Context k}

/-- What holds of all steps among the blocks open there holds at a place. -/
theorem along {p : List Shape → Step → Bool} {cur : Code .row} {ctx : Context .row} {s : Step}
    {post : List Step} (hp : ({} : Builder).along p T.steps = true)
    (herr : (Builder.run T.steps).error = none) (h : Place T pre a cur ctx)
    (hs : cur.steps ++ ctx.steps = s :: post) : p ctx.shapes s = true := by
  have hsteps := h.steps_eq
  rw [hs] at hsteps
  rw [← (h.size_run herr).2.row]
  exact Builder.along_iff.mp hp pre s post hsteps

/-- The walk goes on while there are steps. -/
theorem next {s : Step} {post : List Step} (h : Place T pre a cur ctx)
    (hs : cur.steps ++ ctx.steps = s :: post) :
    ∃ (k' : Kind) (a' : Nat) (cur' : Code k') (ctx' : Context k'),
      Place T (pre ++ [s]) a' cur' ctx' := by
  cases cur with
  | step s' rest => cases hs; exact ⟨_, _, _, _, h.pastStep⟩
  | ifThen body rest => cases hs; exact ⟨_, _, _, _, h.intoThen⟩
  | ifElse body other rest => cases hs; exact ⟨_, _, _, _, h.intoThenElse⟩
  | loop count body rest => cases hs; exact ⟨_, _, _, _, h.intoLoop⟩
  | switch var arms rest => cases hs; exact ⟨_, _, _, _, h.intoSwitch⟩
  | arm label body more => cases hs; exact ⟨_, _, _, _, h.intoArm⟩
  | done =>
    cases ctx with
    | top => exact nomatch hs
    | thenOnly rest outer => cases hs; exact ⟨_, _, _, _, h.pastThen⟩
    | thenElse other rest outer => cases hs; exact ⟨_, _, _, _, h.intoElse⟩
    | elsePart rest outer => cases hs; exact ⟨_, _, _, _, h.pastElse⟩
    | loop count body rest outer => cases hs; exact ⟨_, _, _, _, h.pastLoop⟩
    | switch rest outer => cases hs; exact ⟨_, _, _, _, h.pastSwitch⟩
    | arm more outer =>
      -- the step after the last one of an arm belongs to the next arm or to the switch
      have h := h.pastArm
      cases more with
      | arm label body more => cases hs; exact ⟨_, _, _, _, h.intoArm⟩
      | done =>
        cases outer with
        | switch rest outer => cases hs; exact ⟨_, _, _, _, h.pastSwitch⟩

/-- **Every point between two steps is a place.** -/
theorem exists_of_steps {post : List Step} (h : T.steps = pre ++ post) :
    ∃ (k : Kind) (a : Nat) (cur : Code k) (ctx : Context k), Place T pre a cur ctx := by
  -- walk as far as there are steps, with what is still to be walked in hand
  have hwalk : ∀ (more done : List Step), pre = done ++ more →
      (∃ (k : Kind) (a : Nat) (cur : Code k) (ctx : Context k), Place T done a cur ctx) →
      ∃ (k : Kind) (a : Nat) (cur : Code k) (ctx : Context k), Place T pre a cur ctx := by
    intro more
    induction more with
    | nil => rintro done hpre hplace; rwa [hpre, List.append_nil]
    | cons s more ih =>
      rintro done hpre ⟨k, a, cur, ctx, hplace⟩
      have hleft := hplace.steps_eq
      rw [h, hpre, List.append_assoc, List.append_cancel_left_eq] at hleft
      exact ih (done ++ [s]) (by rw [hpre, List.append_assoc]; rfl) (hplace.next hleft.symm)
  exact hwalk pre [] rfl ⟨_, _, _, _, .start⟩

end Place

/-! ### What stands at an address -/

/-- From the end of a block that writes nothing there, the walk goes on around the block. -/
inductive Context.Sheds : {k k' : Kind} → Context k → Context k' → Prop
  | refl {k} {ctx : Context k} : Sheds ctx ctx
  | elsePart {k'} {ctx' : Context k'} {rest outer} (h : Sheds outer ctx') :
    Sheds (.elsePart rest outer) ctx'
  | arm {k'} {ctx' : Context k'} {more outer} (h : Sheds outer ctx') : Sheds (.arm more outer) ctx'

/-- **The instruction that stands at a place**: the first of its code, or what closes the block
around it. -/
inductive Emits : {k : Kind} → Code k → Context k → Opcode → List UInt8 → Prop
  | step {s rest ctx op} (hop : op = s.op) : Emits (.step s rest) ctx op s.bytes
  | ifThen {body rest ctx} : Emits (.ifThen body rest) ctx .ifStart
    (Opcode.ifStart.header 0 (body.size + Opcode.endIf.size) [])
  | ifElse {body other rest ctx} : Emits (.ifElse body other rest) ctx .ifStart
    (Opcode.ifStart.header 0 (Opcode.ifStart.size + body.size) [])
  | loop {count body rest ctx} : Emits (.loop count body rest) ctx .forLoop
    (Opcode.forLoop.header 0 (body.size + Opcode.forEnd.size) (wordBytes count))
  | switch {var arms rest ctx} : Emits (.switch var arms rest) ctx .switch
    (Opcode.switch.header var (arms.size + Opcode.endSwitch.size) [])
  | arm {label body more ctx op} (hop : op = armOp label) : Emits (.arm label body more) ctx op
    (armHeader label body.size)
  | endIf {rest outer} : Emits .done (.thenOnly rest outer) .endIf (Opcode.endIf.bytes [])
  | elseStart {other rest outer} : Emits .done (.thenElse other rest outer) .elseStart
    (Opcode.elseStart.header 0 (Opcode.elseStart.size + other.size) [])
  | forEnd {count body rest outer} : Emits .done (.loop count body rest outer) .forEnd
    (Opcode.forEnd.bytes [])
  | endSwitch {rest outer} : Emits .done (.switch rest outer) .endSwitch
    (Opcode.endSwitch.bytes [])

namespace Place

variable {T : Code .row} {k : Kind} {pre : List Step} {a : Nat} {cur : Code k} {ctx : Context k}

/-- **At an address where the code goes on some place writes an instruction**, with the same blocks
around it but for those that have come to their end. -/
theorem settle (h : Place T pre a cur ctx) :
    a = T.size ∨ ∃ (k' : Kind) (pre' : List Step) (cur' : Code k') (ctx' : Context k')
      (op : Opcode) (bytes : List UInt8),
      Place T pre' a cur' ctx' ∧ Emits cur' ctx' op bytes ∧ ctx.Sheds ctx' := by
  -- outwards: an else part and an arm come to their end without an instruction
  induction ctx generalizing pre with
  | top =>
    cases cur with
    | done =>
      obtain ⟨bytes, heq, hlen⟩ := h.encode_eq
      left
      rw [Code.size, heq, ← hlen]
      simp [Code.encode, Context.encode]
    | _ => exact .inr ⟨_, _, _, _, _, _, h, by constructor <;> rfl, .refl⟩
  | elsePart rest outer ih =>
    cases cur with
    | done =>
      refine (ih h.pastElse).imp id ?_
      rintro ⟨k', pre', cur', ctx', op, bytes, hplace, hemits, hsheds⟩
      exact ⟨k', pre', cur', ctx', op, bytes, hplace, hemits, .elsePart hsheds⟩
    | _ => exact .inr ⟨_, _, _, _, _, _, h, by constructor <;> rfl, .refl⟩
  | arm more outer ih =>
    cases cur with
    | done =>
      refine (ih h.pastArm).imp id ?_
      rintro ⟨k', pre', cur', ctx', op, bytes, hplace, hemits, hsheds⟩
      exact ⟨k', pre', cur', ctx', op, bytes, hplace, hemits, .arm hsheds⟩
    | _ => exact .inr ⟨_, _, _, _, _, _, h, by constructor <;> rfl, .refl⟩
  | _ => cases cur <;> exact .inr ⟨_, _, _, _, _, _, h, by constructor <;> rfl, .refl⟩

end Place

/-- An instruction that stands at a place is what the bytes go on with. -/
theorem Emits.encode_eq {k : Kind} {cur : Code k} {ctx : Context k} {op : Opcode}
    {bytes : List UInt8} (h : Emits cur ctx op bytes) :
    (∃ payload, bytes = op.bytes payload ∧ payload.length + 1 ≤ op.size) ∧
      ∃ tail, cur.encode ++ ctx.encode = bytes ++ tail := by
  cases h with
  | @step s rest _ _ hop =>
    subst hop
    exact ⟨⟨_, rfl, Step.emission?_fits s.isNamed s.emission?_eq⟩, _, List.append_assoc _ _ _⟩
  | @arm label body more _ _ hop =>
    subst hop
    refine ⟨?_, _, by simp only [Code.encode, List.append_assoc]; rfl⟩
    cases label with
    | some value => exact ⟨_, rfl, Nat.le_refl 6⟩
    | none => exact ⟨_, rfl, by decide⟩
  | loop => exact ⟨⟨_, rfl, Nat.le_refl 6⟩, _, by simp only [Code.encode, List.append_assoc]; rfl⟩
  | ifThen | ifElse | switch =>
    exact ⟨⟨_, rfl, Nat.le_refl 4⟩, _, by simp only [Code.encode, List.append_assoc]; rfl⟩
  | elseStart =>
    exact ⟨⟨_, rfl, Nat.le_refl 4⟩, _, by
      simp only [Code.encode, Context.encode, List.append_assoc, List.nil_append]; rfl⟩
  | endIf | forEnd | endSwitch =>
    exact ⟨⟨_, rfl, by decide⟩, _, by
      simp only [Code.encode, Context.encode, List.append_assoc, List.nil_append]; rfl⟩

/-- Behind an instruction the walk goes on. -/
theorem Place.step_of_emits {T : Code .row} {k : Kind} {pre : List Step} {a : Nat} {cur : Code k}
    {ctx : Context k} {op : Opcode} {bytes : List UInt8} (h : Place T pre a cur ctx)
    (hemits : Emits cur ctx op bytes) :
    ∃ (s : Step) (k' : Kind) (cur' : Code k') (ctx' : Context k'),
      Place T (pre ++ [s]) (a + op.size) cur' ctx' := by
  cases hemits with
  | step hop => subst hop; exact ⟨_, _, _, _, h.pastStep⟩
  | ifThen => exact ⟨_, _, _, _, h.intoThen⟩
  | ifElse => exact ⟨_, _, _, _, h.intoThenElse⟩
  | loop => exact ⟨_, _, _, _, h.intoLoop⟩
  | switch => exact ⟨_, _, _, _, h.intoSwitch⟩
  | arm hop => subst hop; exact ⟨_, _, _, _, h.intoArm⟩
  | endIf => exact ⟨_, _, _, _, h.pastThen⟩
  | elseStart => exact ⟨_, _, _, _, h.intoElse⟩
  | forEnd => exact ⟨_, _, _, _, h.pastLoop⟩
  | endSwitch => exact ⟨_, _, _, _, h.pastSwitch⟩

/-! ### Assembled scripts -/

/-- **A script assembled from steps, and the tree they write.** -/
structure Assembled (steps : List Step) (script : Script) (T : Code .row) : Prop where
  steps_eq : T.steps = Builder.written steps
  data_eq : script.data.toList = T.encode
  fits : T.Fits
  error_eq : (Builder.run T.steps).error = none
  /-- An entry point stands where it was declared; one that was not stands at the start. -/
  entry : ∀ e ∈ script.entries, ∃ pre post, steps = pre ++ post ∧
    (Builder.run pre).code.size = e ∧ (pre = [] ∨ post.head? = some .entry)

/-- **A tree whose steps can be built is assembled.** -/
theorem Assembled.of_steps {steps : List Step} {script : Script} {T : Code .row}
    (hT : T.steps = Builder.written steps) (hbuild : (Builder.run steps).build = .ok script) :
    Assembled steps script T := by
  obtain ⟨⟨herr, -⟩, hdata, hentries⟩ := Builder.build_eq_ok hbuild
  have herr' : (Builder.run T.steps).error = none := by
    rw [hT, Builder.run_written]
    exact herr
  obtain ⟨hcode, hfits⟩ := run_steps herr'
  refine ⟨hT, ?_, hfits, herr', ?_⟩
  · have hbytes : (Builder.run T.steps).code = script.data := by
      rw [hT, Builder.code_written, hdata]
    rw [← hbytes, hcode]
    simp [Builder.put]
  -- without a declaration the only entry point is the first byte
  · intro e he
    rw [hentries, Builder.entryPoints] at he
    split at he
    · exact ⟨[], steps, rfl, (List.mem_singleton.mp he).symm, .inl rfl⟩
    · obtain ⟨pre, post, hsteps, hsize⟩ := Builder.exists_entry (Array.mem_toList_iff.mp he)
      exact ⟨pre, .entry :: post, hsteps, hsize, .inr rfl⟩

/-- **Named steps that can be built are assembled from a tree.** -/
theorem Assembled.of_build {steps : List Step} {script : Script}
    (hnamed : ∀ s ∈ steps, s.isNamed = true)
    (harms : Step.armsFirst (Builder.written steps) = true)
    (hbuild : (Builder.run steps).build = .ok script) : ∃ T, Assembled steps script T := by
  have hrun := Builder.run_written steps
  obtain ⟨⟨herr, hopen⟩, -⟩ := Builder.build_eq_ok hbuild
  obtain ⟨T, hT⟩ : ∃ T : Code .row, T.steps = Builder.written steps := exists_of_run
    (fun s hs => ⟨hnamed s (List.mem_filter.mp hs).1, by simpa using (List.mem_filter.mp hs).2⟩)
    harms (by rw [hrun]; exact herr) (by rw [hrun]; exact hopen)
  exact ⟨T, .of_steps hT hbuild⟩

namespace Assembled

variable {steps : List Step} {script : Script} {T : Code .row} {k : Kind} {pre : List Step}
  {a : Nat} {cur : Code k} {ctx : Context k}

theorem size_eq (hA : Assembled steps script T) : script.data.size = T.size := by
  rw [← Array.length_toList, hA.data_eq, Code.size]

/-- What is left of a tree at a place is held there. -/
theorem holds (hA : Assembled steps script T) (h : Place T pre a cur ctx) :
    script.Holds a (cur.encode ++ ctx.encode) := by
  obtain ⟨bytes, heq, hlen⟩ := h.encode_eq
  exact ⟨bytes, [], by rw [hA.data_eq, heq, List.append_nil], hlen⟩

/-- **The instruction that stands at a place is fetched there.** -/
theorem fetch_of_emits (hA : Assembled steps script T) (h : Place T pre a cur ctx) {op : Opcode}
    {bytes : List UInt8} (hemits : Emits cur ctx op bytes) :
    script.fetch a = .ok (op, bytes.toArray) := by
  obtain ⟨⟨payload, rfl, hfits⟩, tail, htail⟩ := hemits.encode_eq
  have hholds := hA.holds h
  rw [htail] at hholds
  exact Script.fetch_of_holds op payload hfits hholds.left

/-- The search for an arm in the arms of a switch. -/
theorem findArm_eq {arms : Code .arms} {ctx : Context .arms} (hA : Assembled steps script T)
    (h : Place T pre a arms ctx) (value : Int32) :
    Control.findArm script value a = .ok (arms.target value a) ∧
      Control.scanned script value a = arms.armsBefore value a := by
  cases ctx with
  | switch rest outer =>
    refine Control.findArm_of_holds value (h.fits hA.fits).1 ?_
    have hholds := hA.holds h
    rw [Context.encode, ← List.append_assoc, ← List.append_assoc] at hholds
    exact hholds.left.left

/-- An entry point is a place, with those blocks around it that are open where it is declared. -/
theorem exists_place (hA : Assembled steps script T) {post : List Step}
    (hsteps : steps = pre ++ post) :
    ∃ (k : Kind) (cur : Code k) (ctx : Context k),
      Place T (Builder.written pre) (Builder.run pre).code.size cur ctx ∧
        Place.Matches ctx (Builder.run pre).opened := by
  have hwritten : T.steps = Builder.written pre ++ Builder.written post := by
    rw [hA.steps_eq, hsteps, Builder.written, List.filter_append]
    rfl
  obtain ⟨k, a, cur, ctx, h⟩ := Place.exists_of_steps hwritten
  obtain ⟨hsize, hmatches⟩ := h.size_run hA.error_eq
  rw [Builder.run_written] at hsize hmatches
  subst hsize
  exact ⟨k, cur, ctx, h, hmatches⟩

end Assembled

end RoomScript
