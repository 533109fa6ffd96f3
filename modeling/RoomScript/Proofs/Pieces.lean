import RoomScript.Proofs.Grammar

/-!
# The bytes of each step

The assembler writes a header before it knows how long its block is going to be, and comes back to
fill the length in. Lengths are measured from different places, blocks are closed while others
around them are still open, and an arm is closed by whatever happens to come next. None of this
shows in the result: it is what an encoder would have put down that walks over the blocks once and
knows every length beforehand.

That encoder is `Outline.encode`, and `Outline.pieces` is the same with the bytes given out to the
steps. Each step has a piece of its own: a header with its final length in it, the instruction that
closes a block, or nothing at all, as the end of an else has. The outline that is walked over is the
only one there is, since the grammar of the assembler is unambiguous: whether a row goes on or has
come to its end can be told from the next step.

**Main statements.** `Outline.steps_injective`: steps have no more than one outline.
`Outline.join_pieces`, `Outline.declared_pieces`: the bytes and the entry points of an outline, step
by step. `Outline.adds_pieces`: carried out one after another, each step adds as many bytes as its
piece has. `Builder.build_eq_encode`: what is built is what the encoder writes.
-/

namespace RoomScript

open Layout

/-! ### Steps have one outline -/

/-- The steps that a piece of an outline goes on with. Behind arms these are the next arm and
whatever goes on with the last one. -/
def Step.goesOn : Code.Kind → Step → Bool
  | _, .elseStart | _, .endIf | _, .forEnd | _, .endSwitch => false
  | .row, .caseArm _ | .row, .defaultCase => false
  | _, _ => true

/-- A row goes on with every step that opens or closes no block. -/
theorem FreeStep.goesOn_row (s : FreeStep) : s.val.goesOn .row = true := by
  obtain ⟨s, hs⟩ := s
  cases s with
  | elseStart | endIf | forEnd | caseArm | defaultCase | endSwitch => exact nomatch hs
  | _ => rfl

namespace Outline

open Code (Kind armStep armHeader armOp)

/-- Steps that come behind a piece of an outline, as it does not go on with the first of them. -/
def Follow (k : Kind) (tail : List Step) : Prop := ∀ s ∈ tail.head?, s.goesOn k = false

theorem Follow.cons {k : Kind} {s : Step} (h : s.goesOn k = false) (tail : List Step) :
    Follow k (s :: tail) := by
  intro s' hs'
  cases hs'
  exact h

theorem Follow.nil (k : Kind) : Follow k [] := fun _ hs => nomatch hs

/-- A row ends where an arm begins, and where the arms end. -/
theorem Follow.arms (arms : Outline .arms) {tail : List Step} (h : Follow .arms tail) :
    Follow .row (arms.steps ++ tail) := by
  cases arms with
  | done =>
    intro s hs
    have hends := h s hs
    cases s with
    | elseStart | endIf | forEnd | caseArm | defaultCase | endSwitch => rfl
    | _ => exact nomatch hends
  | arm label body more => cases label <;> exact .cons rfl _

/-- Nothing is left of a piece where it could not go on. -/
theorem eq_done_of_follow {k : Kind} {o : Outline k} {tail tail' : List Step}
    (ht' : Follow k tail') (h : o.steps ++ tail = tail') : o = done := by
  subst h
  cases o with
  | done => rfl
  | step s rest =>
    have hends := ht' s.val rfl
    rw [s.goesOn_row] at hends
    exact nomatch hends
  | ifThen | ifElse => exact nomatch ht' .ifStart rfl
  | loop count => exact nomatch ht' (.forLoop count) rfl
  | switch var => exact nomatch ht' (.switch var) rfl
  | arm label =>
    have hends := ht' (armStep label) rfl
    cases label <;> exact nomatch hends

theorem armStep_injective : Function.Injective armStep := by
  intro label label' h
  cases label <;> cases label' <;> cases h <;> rfl

/-! The first step tells which rule an outline begins with. -/

section Heads

variable {o : Outline .row} {tail more : List Step}

/-- A row that goes on with the next step has something left. -/
theorem ne_done_of_steps {k : Kind} {o : Outline k} {s : Step} (hs : s.goesOn k = true)
    (ht : Follow k tail) (h : o.steps ++ tail = s :: more) : o ≠ done := by
  rintro rfl
  have hhead : tail = s :: more := h
  rw [ht s (by rw [hhead]; rfl)] at hs
  exact nomatch hs

/-- What begins with a step that opens no block is that step. -/
theorem eq_step_of_steps {s : FreeStep} (ht : Follow .row tail)
    (h : o.steps ++ tail = s.val :: more) :
    ∃ rest, o = step s rest ∧ more = rest.steps ++ tail := by
  cases o with
  | done => exact absurd rfl (ne_done_of_steps s.goesOn_row ht h)
  | step s' rest =>
    obtain ⟨hs', hrest⟩ := List.cons.inj h
    exact ⟨rest, by rw [Subtype.ext hs'], hrest.symm⟩
  | ifThen | ifElse | loop | switch =>
    exact absurd s.property (by rw [← (List.cons.inj h).1]; exact nofun)

/-- What begins with the header of an if is an if, with an else or without. -/
theorem eq_if_of_steps (ht : Follow .row tail) (h : o.steps ++ tail = .ifStart :: more) :
    (∃ body rest, o = ifThen body rest ∧
      more = body.steps ++ .endIf :: (rest.steps ++ tail)) ∨
    ∃ body other rest, o = ifElse body other rest ∧
      more = body.steps ++ .elseStart :: (other.steps ++ .endIf :: (rest.steps ++ tail)) := by
  cases o with
  | done => exact absurd rfl (ne_done_of_steps rfl ht h)
  | step s rest => exact absurd s.property (by rw [(List.cons.inj h).1]; exact nofun)
  | ifThen body rest => exact .inl ⟨body, rest, rfl, by simpa using (List.cons.inj h).2.symm⟩
  | ifElse body other rest =>
    exact .inr ⟨body, other, rest, rfl, by simpa using (List.cons.inj h).2.symm⟩
  | loop | switch => exact nomatch (List.cons.inj h).1

/-- What begins with the header of a loop is that loop. -/
theorem eq_loop_of_steps {count : UInt16} (ht : Follow .row tail)
    (h : o.steps ++ tail = .forLoop count :: more) :
    ∃ body rest, o = loop count body rest ∧
      more = body.steps ++ .forEnd :: (rest.steps ++ tail) := by
  cases o with
  | done => exact absurd rfl (ne_done_of_steps rfl ht h)
  | step s rest => exact absurd s.property (by rw [(List.cons.inj h).1]; exact nofun)
  | loop count' body rest =>
    obtain ⟨hfor, hmore⟩ := List.cons.inj h
    obtain rfl := Step.forLoop.inj hfor
    exact ⟨body, rest, rfl, by simpa using hmore.symm⟩
  | ifThen | ifElse | switch => exact nomatch (List.cons.inj h).1

/-- What begins with the header of a switch is that switch. -/
theorem eq_switch_of_steps {var : UInt8} (ht : Follow .row tail)
    (h : o.steps ++ tail = .switch var :: more) :
    ∃ front arms rest, o = switch var front arms rest ∧
      more = front.steps ++ (arms.steps ++ .endSwitch :: (rest.steps ++ tail)) := by
  cases o with
  | done => exact absurd rfl (ne_done_of_steps rfl ht h)
  | step s rest => exact absurd s.property (by rw [(List.cons.inj h).1]; exact nofun)
  | switch var' front arms rest =>
    obtain ⟨hswitch, hmore⟩ := List.cons.inj h
    obtain rfl := Step.switch.inj hswitch
    exact ⟨front, arms, rest, rfl, by simpa using hmore.symm⟩
  | ifThen | ifElse | loop => exact nomatch (List.cons.inj h).1

/-- What begins with an arm is that arm. -/
theorem eq_arm_of_steps {o : Outline .arms} {label : Option UInt16} (ht : Follow .arms tail)
    (h : o.steps ++ tail = armStep label :: more) :
    ∃ body rest, o = arm label body rest ∧ more = body.steps ++ (rest.steps ++ tail) := by
  cases o with
  | done =>
    have hgoes : (armStep label).goesOn .arms = true := by cases label <;> rfl
    exact absurd rfl (ne_done_of_steps hgoes ht h)
  | arm label' body rest =>
    obtain ⟨harm, hmore⟩ := List.cons.inj h
    obtain rfl := armStep_injective harm
    exact ⟨body, rest, rfl, by simpa using hmore.symm⟩

end Heads

/-- **The grammar is unambiguous**: the steps of a piece tell what the piece is, and where it ends
in what follows. -/
theorem steps_append_inj {k : Kind} {o o' : Outline k} {tail tail' : List Step}
    (ht : Follow k tail) (ht' : Follow k tail') (h : o.steps ++ tail = o'.steps ++ tail') :
    o = o' ∧ tail = tail' := by
  induction o generalizing tail tail' with
  | done =>
    obtain rfl := eq_done_of_follow ht h.symm
    exact ⟨rfl, h⟩
  | step s rest hrest =>
    obtain ⟨rest', rfl, hmore⟩ := eq_step_of_steps ht' h.symm
    obtain ⟨rfl, rfl⟩ := hrest ht ht' hmore
    exact ⟨rfl, rfl⟩
  | ifThen body rest hbody hrest =>
    simp only [steps, List.cons_append, List.append_assoc] at h
    obtain ⟨body', rest', rfl, hmore⟩ | ⟨body', other', rest', rfl, hmore⟩ :=
      eq_if_of_steps ht' h.symm
    · obtain ⟨rfl, hend⟩ := hbody (.cons rfl _) (.cons rfl _) hmore
      obtain ⟨rfl, rfl⟩ := hrest ht ht' (List.cons.inj hend).2
      exact ⟨rfl, rfl⟩
    · -- both bodies end at the same step, an end in one and an else in the other
      obtain ⟨-, hend⟩ := hbody (.cons rfl _) (.cons rfl _) hmore
      exact nomatch (List.cons.inj hend).1
  | ifElse body other rest hbody hother hrest =>
    simp only [steps, List.cons_append, List.append_assoc] at h
    obtain ⟨body', rest', rfl, hmore⟩ | ⟨body', other', rest', rfl, hmore⟩ :=
      eq_if_of_steps ht' h.symm
    · obtain ⟨-, hend⟩ := hbody (.cons rfl _) (.cons rfl _) hmore
      exact nomatch (List.cons.inj hend).1
    · obtain ⟨rfl, helse⟩ := hbody (.cons rfl _) (.cons rfl _) hmore
      obtain ⟨rfl, hend⟩ := hother (.cons rfl _) (.cons rfl _) (List.cons.inj helse).2
      obtain ⟨rfl, rfl⟩ := hrest ht ht' (List.cons.inj hend).2
      exact ⟨rfl, rfl⟩
  | loop count body rest hbody hrest =>
    simp only [steps, List.cons_append, List.append_assoc] at h
    obtain ⟨body', rest', rfl, hmore⟩ := eq_loop_of_steps ht' h.symm
    obtain ⟨rfl, hend⟩ := hbody (.cons rfl _) (.cons rfl _) hmore
    obtain ⟨rfl, rfl⟩ := hrest ht ht' (List.cons.inj hend).2
    exact ⟨rfl, rfl⟩
  | switch var front arms rest hfront harms hrest =>
    simp only [steps, List.cons_append, List.append_assoc] at h
    obtain ⟨front', arms', rest', rfl, hmore⟩ := eq_switch_of_steps ht' h.symm
    -- the row in front of the arms ends with the first of them, or with the switch
    obtain ⟨rfl, hrow⟩ := hfront (.arms arms (.cons rfl _)) (.arms arms' (.cons rfl _)) hmore
    obtain ⟨rfl, hend⟩ := harms (.cons rfl _) (.cons rfl _) hrow
    obtain ⟨rfl, rfl⟩ := hrest ht ht' (List.cons.inj hend).2
    exact ⟨rfl, rfl⟩
  | arm label body more hbody hmore =>
    simp only [steps, List.cons_append, List.append_assoc] at h
    obtain ⟨body', more', rfl, hrow⟩ := eq_arm_of_steps ht' h.symm
    obtain ⟨rfl, hnext⟩ := hbody (.arms more ht) (.arms more' ht') hrow
    obtain ⟨rfl, rfl⟩ := hmore ht ht' hnext
    exact ⟨rfl, rfl⟩

/-- **Steps have no more than one outline.** -/
theorem steps_injective {k : Kind} : Function.Injective (steps : Outline k → List Step) := by
  intro o o' h
  exact (steps_append_inj (.nil k) (.nil k) (congrArg (· ++ []) h)).1

end Outline

/-! ### Pieces -/

/-- A step with the bytes it contributes to the script. -/
structure Piece where
  step : Step
  bytes : List UInt8
  deriving DecidableEq, Repr

namespace Piece

/-- The bytes of pieces, one after another. -/
def join (pieces : List Piece) : List UInt8 := pieces.flatMap bytes

/-- For each entry point that pieces declare, in order, the number of bytes in front of it, where
`before` bytes are in front of them all. -/
def declared (before : Nat) : List Piece → List Nat
  | [] => []
  | p :: more => p.step.declares before ++ declared (before + p.bytes.length) more

@[simp] theorem join_nil : join [] = [] := rfl

@[simp] theorem join_cons (p : Piece) (more : List Piece) :
    join (p :: more) = p.bytes ++ join more := rfl

@[simp] theorem join_append (ps qs : List Piece) : join (ps ++ qs) = join ps ++ join qs :=
  List.flatMap_append

@[simp] theorem declared_nil (a : Nat) : declared a [] = [] := rfl

@[simp] theorem declared_cons (a : Nat) (p : Piece) (more : List Piece) :
    declared a (p :: more) = p.step.declares a ++ declared (a + p.bytes.length) more := rfl

@[simp] theorem declared_append (a : Nat) (ps qs : List Piece) :
    declared a (ps ++ qs) = declared a ps ++ declared (a + (join ps).length) qs := by
  induction ps generalizing a with
  | nil => rfl
  | cons p ps ih => simp [ih, Nat.add_assoc]

/-- There is an entry point for each step that declares one. -/
theorem declared_eq_nil_iff (a : Nat) (ps : List Piece) :
    declared a ps = [] ↔ .entry ∉ ps.map step := by
  induction ps generalizing a with
  | nil => simp
  | cons p ps ih =>
    obtain ⟨s, bytes⟩ := p
    cases s <;> simp [Step.declares, ih]

end Piece

namespace Outline

open Code (Kind armStep armHeader armOp)

/-- **The bytes of an outline, step by step**, with every length in place:

* an if without else spans from behind its header to behind the instruction that closes it;
* an if with an else goes on right behind the header of the else;
* an else spans from its own header to its end, and nothing is written there;
* a loop and a switch span from behind their header to behind the instruction that closes them;
* an arm spans its body alone. -/
@[simp] def pieces : {k : Kind} → Outline k → List Piece
  | _, done => []
  | _, step s rest => ⟨s.val, s.val.bytes⟩ :: rest.pieces
  | _, ifThen body rest =>
    ⟨.ifStart, Opcode.ifStart.header 0 (body.size + Opcode.endIf.size) []⟩ :: body.pieces ++
      ⟨.endIf, Opcode.endIf.bytes []⟩ :: rest.pieces
  | _, ifElse body other rest =>
    ⟨.ifStart, Opcode.ifStart.header 0 (body.size + Opcode.elseStart.size) []⟩ :: body.pieces ++
      ⟨.elseStart, Opcode.elseStart.header 0 (Opcode.elseStart.size + other.size) []⟩ ::
        other.pieces ++ ⟨.endIf, []⟩ :: rest.pieces
  | _, loop count body rest =>
    ⟨.forLoop count,
        Opcode.forLoop.header 0 (body.size + Opcode.forEnd.size) (wordBytes count)⟩ ::
      body.pieces ++ ⟨.forEnd, Opcode.forEnd.bytes []⟩ :: rest.pieces
  | _, switch var front arms rest =>
    ⟨.switch var,
        Opcode.switch.header var (front.size + arms.size + Opcode.endSwitch.size) []⟩ ::
      front.pieces ++ arms.pieces ++ ⟨.endSwitch, Opcode.endSwitch.bytes []⟩ :: rest.pieces
  | _, arm label body more =>
    ⟨armStep label, armHeader label body.size⟩ :: body.pieces ++ more.pieces

theorem map_step_pieces {k : Kind} (o : Outline k) : o.pieces.map Piece.step = o.steps := by
  induction o with
  | done => rfl
  | _ => simp_all

/-- **The pieces of an outline are its bytes**, each of them once. -/
@[simp] theorem join_pieces {k : Kind} (o : Outline k) : Piece.join o.pieces = o.encode := by
  induction o with
  | done => rfl
  | step s rest hrest => simp [hrest]
  | ifThen body rest hbody hrest => simp [hbody, hrest, size]
  | ifElse body other rest hbody hother hrest =>
    -- the two headers are of one size, so it does not matter which of them is counted
    have hlength : body.encode.length + Opcode.elseStart.size =
      Opcode.ifStart.size + body.encode.length := Nat.add_comm _ _
    simp [hbody, hother, hrest, hlength, size]
  | loop count body rest hbody hrest => simp [hbody, hrest, size]
  | switch var front arms rest hfront harms hrest => simp [hfront, harms, hrest, size]
  | arm label body more hbody hmore => simp [hbody, hmore, size]

/-- **The entry points of an outline**: how many bytes stand in front of each. -/
theorem declared_pieces {k : Kind} (o : Outline k) (a : Nat) :
    Piece.declared a o.pieces = o.entries a := by
  induction o generalizing a with
  | done => rfl
  | step s rest hrest => simp [hrest]
  | ifThen body rest hbody hrest =>
    simp [hbody, hrest, size, Step.declares, Opcode.length_bytes_nil, Nat.add_assoc,
      Opcode.length_header .ifStart 0 _ [] (by decide)]
  | ifElse body other rest hbody hother hrest =>
    simp [hbody, hother, hrest, size, Step.declares, Nat.add_assoc,
      Opcode.length_header .ifStart 0 _ [] (by decide),
      Opcode.length_header .elseStart 0 _ [] (by decide)]
  | loop count body rest hbody hrest =>
    simp [hbody, hrest, size, Step.declares, Opcode.length_bytes_nil, Nat.add_assoc,
      Opcode.length_header .forLoop 0 _ (wordBytes count) (Nat.le_refl 6)]
  | switch var front arms rest hfront harms hrest =>
    simp [hfront, harms, hrest, size, Step.declares, Opcode.length_bytes_nil, Nat.add_assoc,
      Opcode.length_header .switch var _ [] (by decide)]
  | arm label body more hbody hmore =>
    cases label <;> simp [hbody, hmore, size, Step.declares, armStep, Nat.add_assoc]

end Outline

/-! ### What each step adds -/

namespace Builder

/-- **Each step adds as many bytes as its piece has**, if they are carried out one after another. -/
def Adds (b : Builder) : List Piece → Prop
  | [] => True
  | p :: more => (b.apply p.step).code.size = b.code.size + p.bytes.length ∧
    (b.apply p.step).Adds more

theorem adds_append {b : Builder} {ps qs : List Piece} :
    b.Adds (ps ++ qs) ↔ b.Adds ps ∧ ((ps.map Piece.step).foldl apply b).Adds qs := by
  induction ps generalizing b with
  | nil => simp [Adds]
  | cons p ps ih => simp [Adds, ih, and_assoc]

/-- The steps that came before have added the bytes of their pieces. -/
theorem Adds.size_foldl {b : Builder} {ps : List Piece} (h : b.Adds ps) :
    ((ps.map Piece.step).foldl apply b).code.size = b.code.size + (Piece.join ps).length := by
  induction ps generalizing b with
  | nil => rfl
  | cons p ps ih =>
    rw [List.map_cons, List.foldl_cons, ih h.2, h.1, Piece.join_cons, List.length_append,
      Nat.add_assoc]

/-- **A block adds its pieces**, if its header does, what is in it does, and there is as much in the
end as there should be. -/
theorem adds_block {b : Builder} {first last : Piece} {inner rest : List Piece}
    (hopen : (b.apply first.step).code.size = b.code.size + first.bytes.length)
    (hinner : (b.apply first.step).Adds inner)
    (hclosed : (((inner.map Piece.step).foldl apply (b.apply first.step)).apply
      last.step).code.size =
        b.code.size + (first.bytes.length + (Piece.join inner).length + last.bytes.length))
    (hrest : (((inner.map Piece.step).foldl apply (b.apply first.step)).apply last.step).Adds
      rest) :
    b.Adds (first :: inner ++ last :: rest) := by
  rw [List.cons_append, Adds, adds_append]
  refine ⟨hopen, hinner, ?_, hrest⟩
  rw [hclosed, hinner.size_foldl, hopen]
  omega

/-- The header of a block is added as it is opened. -/
theorem size_opens (b : Builder) {s : Step} {op : Opcode} {payload : List UInt8} {block : Opening}
    (hs : s.isNamed = true) (he : s.emission? = some (op, payload)) :
    ((b.openBlock block).write s).code.size = b.code.size + op.size := by
  have hsize := size_write (b.openBlock block) hs
  rwa [he] at hsize

end Builder

namespace Outline

open Code (Kind armStep armHeader armOp)

section Adds

variable {body other front rest : Outline .row} {arms more : Outline .arms}

theorem adds_ifThen (hgrows : body.Grows) (hbody : ∀ b : Builder, b.Adds body.pieces)
    (hrest : ∀ b : Builder, b.Adds rest.pieces) (b : Builder) :
    b.Adds (ifThen body rest).pieces := by
  have hheader := fun n => Opcode.length_header .ifStart 0 n [] (by decide)
  refine Builder.adds_block ?_ (hbody _) ?_ (hrest _)
  · rw [hheader]
    exact b.size_opens rfl rfl
  · rw [map_step_pieces, join_pieces]
    refine (congrArg (·.code.size) (hgrows.closed_if b)).trans ?_
    simp only [Builder.size_patch, Builder.size_grow, List.length_append, hheader, Nat.add_assoc]

theorem adds_loop (hgrows : body.Grows) (hbody : ∀ b : Builder, b.Adds body.pieces)
    (hrest : ∀ b : Builder, b.Adds rest.pieces) (count : UInt16) (b : Builder) :
    b.Adds (loop count body rest).pieces := by
  have hheader := fun n => Opcode.length_header .forLoop 0 n (wordBytes count) (Nat.le_refl 6)
  refine Builder.adds_block ?_ (hbody _) ?_ (hrest _)
  · rw [hheader]
    exact b.size_opens rfl rfl
  · rw [map_step_pieces, join_pieces]
    refine (congrArg (·.code.size) (hgrows.closed_loop b count)).trans ?_
    simp only [Builder.size_patch, Builder.size_grow, List.length_append, hheader, Nat.add_assoc]

theorem adds_switch (hgrows : front.Grows) (hgrows' : arms.Grows)
    (hfront : ∀ b : Builder, b.Adds front.pieces) (harms : ∀ b : Builder, b.Adds arms.pieces)
    (hrest : ∀ b : Builder, b.Adds rest.pieces) (var : UInt8) (b : Builder) :
    b.Adds (switch var front arms rest).pieces := by
  have hheader := fun n => Opcode.length_header .switch var n [] (by decide)
  rw [pieces, List.cons_append, List.cons_append, ← List.cons_append]
  refine Builder.adds_block ?_ (Builder.adds_append.mpr ⟨hfront _, harms _⟩) ?_ (hrest _)
  · rw [hheader]
    exact b.size_opens rfl rfl
  · rw [List.map_append, map_step_pieces, map_step_pieces, List.foldl_append, Piece.join_append,
      join_pieces, join_pieces]
    refine (congrArg (·.code.size) (hgrows.closed_switch b hgrows' var)).trans ?_
    simp only [Builder.size_patch, Builder.size_grow, List.length_append, hheader, Nat.add_assoc]

theorem adds_ifElse (hgrows : body.Grows) (hgrows' : other.Grows)
    (hbody : ∀ b : Builder, b.Adds body.pieces) (hother : ∀ b : Builder, b.Adds other.pieces)
    (hrest : ∀ b : Builder, b.Adds rest.pieces) (b : Builder) :
    b.Adds (ifElse body other rest).pieces := by
  have hheader := fun n => Opcode.length_header .ifStart 0 n [] (by decide)
  have hheader' := fun n => Opcode.length_header .elseStart 0 n [] (by decide)
  have hopened : ∀ (b : Builder) (block : Opening),
    (b.openBlock block).code.size = b.code.size := fun _ _ => rfl
  rw [pieces, List.append_assoc, List.cons_append]
  refine Builder.adds_block ?_ (hbody _) ?_ (Builder.adds_append.mpr ⟨hother _, ?_, hrest _⟩)
  · rw [hheader]
    exact b.size_opens rfl rfl
  · rw [map_step_pieces, join_pieces]
    refine (congrArg (·.code.size) (hgrows.closed_then b)).trans ?_
    simp only [Builder.size_patch, Builder.size_grow, hopened, List.length_append, hheader,
      hheader', Nat.add_assoc]
  · -- the end of an else fills in its length and writes nothing
    have hinner := (hother (((body.steps.foldl Builder.apply (b.apply .ifStart))).apply
      .elseStart)).size_foldl
    rw [map_step_pieces, hgrows.closed_then b] at hinner
    rw [map_step_pieces, map_step_pieces, hgrows.closed_then b, hinner]
    refine (congrArg (·.code.size) (hgrows'.closed_else _)).trans ?_
    simp only [Builder.size_patch, Builder.size_grow, hopened, List.length_append, join_pieces,
      hheader', List.length_nil, Nat.add_assoc, Nat.add_zero]

theorem adds_arm {label : Option UInt16} (hbody : ∀ b : Builder, b.Adds body.pieces)
    (hmore : ∀ b : Builder, b.Adds more.pieces) (b : Builder) :
    b.Adds (arm label body more).pieces := by
  rw [pieces, List.cons_append, Builder.Adds, Builder.adds_append]
  refine ⟨?_, hbody _, hmore _⟩
  -- the arm in front of it is closed first, which adds nothing
  rw [Code.length_armHeader, ← b.size_closeArm]
  cases label with
  | some value => exact b.closeArm.size_opens rfl rfl
  | none => exact b.closeArm.size_opens rfl rfl

end Adds

/-- **Each step of an outline adds as many bytes as its piece has.** -/
theorem adds_pieces {k : Kind} {o : Outline k} (hfits : o.Fits)
    (hpay : ∀ s ∈ o.steps, s.PayloadFits) : ∀ b : Builder, b.Adds o.pieces := by
  induction o with
  | done => exact fun b => trivial
  | step s rest hrest =>
    rw [steps, List.forall_mem_cons] at hpay
    intro b
    refine ⟨?_, hrest hfits hpay.2 _⟩
    rw [b.apply_free s hpay.1, Builder.size_grow]
  | ifThen body rest hbody hrest =>
    obtain ⟨-, hbodyFits, hrestFits⟩ := hfits
    simp only [steps, List.cons_append, List.forall_mem_cons, List.forall_mem_append] at hpay
    obtain ⟨-, hbodyPay, -, hrestPay⟩ := hpay
    exact adds_ifThen (grows hbodyFits hbodyPay) (hbody hbodyFits hbodyPay)
      (hrest hrestFits hrestPay)
  | ifElse body other rest hbody hother hrest =>
    obtain ⟨⟨-, hbodyFits⟩, ⟨-, hotherFits⟩, hrestFits⟩ := hfits
    simp only [steps, List.cons_append, List.append_assoc, List.forall_mem_cons,
      List.forall_mem_append] at hpay
    obtain ⟨-, hbodyPay, -, hotherPay, -, hrestPay⟩ := hpay
    exact adds_ifElse (grows hbodyFits hbodyPay) (grows hotherFits hotherPay)
      (hbody hbodyFits hbodyPay) (hother hotherFits hotherPay) (hrest hrestFits hrestPay)
  | loop count body rest hbody hrest =>
    obtain ⟨-, hbodyFits, hrestFits⟩ := hfits
    simp only [steps, List.cons_append, List.forall_mem_cons, List.forall_mem_append] at hpay
    obtain ⟨-, hbodyPay, -, hrestPay⟩ := hpay
    exact adds_loop (grows hbodyFits hbodyPay) (hbody hbodyFits hbodyPay)
      (hrest hrestFits hrestPay) count
  | switch var front arms rest hfront harms hrest =>
    obtain ⟨-, hfrontFits, harmsFits, hrestFits⟩ := hfits
    simp only [steps, List.cons_append, List.append_assoc, List.forall_mem_cons,
      List.forall_mem_append] at hpay
    obtain ⟨-, hfrontPay, harmsPay, -, hrestPay⟩ := hpay
    exact adds_switch (grows hfrontFits hfrontPay) (grows harmsFits harmsPay)
      (hfront hfrontFits hfrontPay) (harms harmsFits harmsPay) (hrest hrestFits hrestPay) var
  | arm label body more hbody hmore =>
    obtain ⟨-, hbodyFits, hmoreFits⟩ := hfits
    simp only [steps, List.cons_append, List.forall_mem_cons, List.forall_mem_append] at hpay
    obtain ⟨-, hbodyPay, hmorePay⟩ := hpay
    exact adds_arm (hbody hbodyFits hbodyPay) (hmore hmoreFits hmorePay)

end Outline

/-! ### What is built -/

namespace Builder

/-- **Filling lengths in comes to the same as knowing them.** Steps that are built have one outline,
and every length in it fits its field. The code is what the encoder writes for the outline: each
step has its bytes in it once, in the order of the steps, and has added as many bytes when it was
carried out. The entry points are the numbers of bytes in front of the steps that declare them, in
order; a script that declares none starts at its first byte. -/
theorem build_eq_encode {steps : List Step} {script : Script}
    (h : (run steps).build = .ok script) :
    ∃ o : Outline .row, (∀ o' : Outline .row, o'.steps = steps ↔ o' = o) ∧ o.Fits ∧
      script.data.toList = o.encode ∧
      o.pieces.map Piece.step = steps ∧ Piece.join o.pieces = o.encode ∧
      Builder.Adds {} o.pieces ∧
      script.entries = if .entry ∈ steps then Piece.declared 0 o.pieces else [0] := by
  obtain ⟨⟨herr, hopen⟩, hdata, hentries⟩ := build_eq_ok h
  obtain ⟨o, rfl⟩ := Outline.exists_of_run herr hopen
  have hfits := Outline.fits_of_error herr
  have hpay := payloadFits_of_foldl herr
  have hrun : run o.steps = ({} : Builder).grow o.encode (o.entries 0) :=
    o.foldl_steps hfits hpay {}
  -- the builder has written the code of the outline, in one go and with all its lengths filled in
  refine ⟨o, fun o' => Outline.steps_injective.eq_iff, hfits, ?_, o.map_step_pieces,
    o.join_pieces, Outline.adds_pieces hfits hpay {}, ?_⟩
  · rw [hdata, hrun]
    simp [grow]
  · rw [hentries, (run_outline hfits hpay).2.1, Outline.entryPoints, ← o.declared_pieces]
    simp only [List.isEmpty_iff, Piece.declared_eq_nil_iff, o.map_step_pieces, ite_not]

/-- A loop in an else, and an arm that the next one closes. The if spans nine bytes, up to behind
the header of its else, and the else thirteen, its header among them. -/
theorem build_eq_encode_nested :
    let steps : List Step := [.nop, .entry, .ifStart, .check 0 0 1, .nop, .elseStart, .forLoop 2,
      .nop, .forEnd, .endIf, .entry, .switch 7, .caseArm 1, .nop, .breakLoop, .defaultCase, .nop,
      .endSwitch, .evtEnd]
    let script : Script := ⟨#[0x00, 0x06, 0, 9, 0, 0x21, 0, 0, 1, 0x00, 0x07, 0, 13, 0,
      0x0d, 0, 3, 0, 2, 0, 0x00, 0x0e, 0, 0x13, 7, 14, 0, 0x14, 0, 3, 0, 1, 0, 0x00, 0x1a, 0,
      0x15, 0, 0x00, 0x16, 0, 0x01, 0], [1, 23], by decide⟩
    (run steps).build = .ok script ∧ ∃ o : Outline .row, o.steps = steps ∧
      o.encode = script.data.toList ∧ Piece.declared 0 o.pieces = [1, 23] := by
  intro steps script
  have hbuild : (run steps).build = .ok script := rfl
  obtain ⟨o, hunique, -, hdata, -, -, -, hentries⟩ := build_eq_encode hbuild
  exact ⟨hbuild, o, (hunique o).mpr rfl, hdata.symm, hentries.symm⟩

end Builder

end RoomScript
