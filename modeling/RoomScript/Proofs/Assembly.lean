import RoomScript.Proofs.Grammar

/-!
# What the assembler writes

The bytes of nested code are given outright by `Code.encode`. The assembler gets there in another
way: it writes headers with empty lengths and comes back to them. That the two agree is known for
everything the assembler accepts, and nested code is a part of that: an outline without entry points
in which every step has a name and every switch starts with an arm.

**Main statements.** `Code.run_steps`: carrying out the steps of a tree appends its bytes, and every
length fits its field, if no mistake is made on the way. `Code.exists_of_run`: every list of named
steps that leaves no mistake and nothing open is the list of steps of a tree.
`Builder.exists_entry`: an entry point is the size of the code before it.
-/

namespace RoomScript

open Layout

/-! ### Trees are outlines -/

namespace PlainStep

theorem isFree (s : PlainStep) : s.val.isFree = true := Step.isFree_of_plain (.inl s.property)

theorem payloadFits (s : PlainStep) : s.val.PayloadFits := by
  obtain ⟨s, hs⟩ := s
  cases s with
  | instruction => exact nomatch hs
  | _ => trivial

theorem bytes_eq (s : PlainStep) : s.val.bytes = s.bytes := by
  obtain ⟨s, hs⟩ := s
  cases s with
  | entry | raw | endIf | forEnd | endSwitch => exact nomatch hs
  | _ => rfl

theorem declares_eq (s : PlainStep) (a : Nat) : s.val.declares a = [] := by
  obtain ⟨s, hs⟩ := s
  cases s with
  | entry => exact nomatch hs
  | _ => rfl

end PlainStep

/-- A plain step writes its bytes. -/
theorem Builder.apply_plain (b : Builder) (s : PlainStep) : b.apply s.val = b.put s.bytes := by
  rw [b.apply_free ⟨s.val, s.isFree⟩ s.payloadFits, s.bytes_eq, s.declares_eq, put_eq_grow]

namespace Code

/-- The outline of nested code. -/
def outline : {k : Kind} → Code k → Outline k
  | _, done => .done
  | _, step s rest => .step ⟨s.val, s.isFree⟩ rest.outline
  | _, ifThen body rest => .ifThen body.outline rest.outline
  | _, ifElse body other rest => .ifElse body.outline other.outline rest.outline
  | _, loop count body rest => .loop count body.outline rest.outline
  | _, switch var arms rest => .switch var .done arms.outline rest.outline
  | _, arm label body more => .arm label body.outline more.outline

@[simp] theorem steps_outline {k : Kind} (c : Code k) : c.outline.steps = c.steps := by
  induction c with
  | done => rfl
  | _ => simp_all [outline, Outline.steps, steps]

@[simp] theorem encode_outline {k : Kind} (c : Code k) : c.outline.encode = c.encode := by
  induction c with
  | done => rfl
  | step s rest hrest => simp [outline, Outline.encode, encode, s.bytes_eq, hrest]
  | _ => simp_all [outline, Outline.encode, encode]

@[simp] theorem size_outline {k : Kind} (c : Code k) : c.outline.size = c.size := by
  rw [Outline.size, encode_outline, size]

/-- Nested code declares no entry points. -/
@[simp] theorem entries_outline {k : Kind} (c : Code k) (a : Nat) : c.outline.entries a = [] := by
  induction c generalizing a with
  | done => rfl
  | step s rest hrest => simp [outline, Outline.entries, s.declares_eq, hrest]
  | _ => simp_all [outline, Outline.entries]

theorem fits_of_outline {k : Kind} {c : Code k} (h : c.outline.Fits) : c.Fits := by
  induction c with
  | done => trivial
  | switch var arms rest harms hrest =>
    obtain ⟨hlt, -, harmsFits, hrestFits⟩ := h
    rw [show (Outline.done : Outline .row).size = 0 from rfl, Nat.zero_add, size_outline] at hlt
    exact ⟨hlt, harms harmsFits, hrest hrestFits⟩
  | _ => simp_all [outline, Outline.Fits, Fits]

/-- **The assembler writes the bytes of a tree**, and the lengths of its blocks fit, unless a
mistake is made on the way. -/
theorem run_steps {c : Code .row} (h : (Builder.run c.steps).error = none) :
    Builder.run c.steps = ({} : Builder).put c.encode ∧ c.Fits := by
  rw [← steps_outline] at h ⊢
  have hfits := Outline.fits_of_error h
  refine ⟨?_, fits_of_outline hfits⟩
  have hrun := Outline.foldl_steps hfits (Builder.payloadFits_of_foldl h) {}
  rwa [encode_outline, entries_outline, ← Builder.put_eq_grow] at hrun

end Code

/-! ### Steps without a mistake are nested -/

/-- The steps that end the arm before them. -/
def Step.endsArm : Step → Bool
  | .caseArm _ | .defaultCase | .endSwitch => true
  | _ => false

/-- Every switch is followed at once by an arm or by its end. -/
def Step.armsFirst : List Step → Bool
  | .switch _ :: s :: rest => s.endsArm && armsFirst (s :: rest)
  | _ :: rest => armsFirst rest
  | [] => true

theorem Step.armsFirst_tail {s : Step} {rest : List Step} (h : armsFirst (s :: rest) = true) :
    armsFirst rest = true := by
  unfold armsFirst at h
  split at h
  · next heq =>
    cases heq
    exact (Bool.and_eq_true_iff.mp h).2
  · next heq => cases heq; exact h
  · next heq => exact nomatch heq

theorem Step.armsFirst_append {xs ys : List Step} (h : armsFirst (xs ++ ys) = true) :
    armsFirst xs = true ∧ armsFirst ys = true := by
  induction xs with
  | nil => exact ⟨rfl, h⟩
  | cons s xs ih =>
    obtain ⟨hxs, hys⟩ := ih (armsFirst_tail h)
    refine ⟨?_, hys⟩
    -- only a switch asks for something of the step behind it, and that may be the first of `ys`
    cases s with
    | switch var =>
      cases xs with
      | nil => rfl
      | cons s' xs => exact Bool.and_eq_true_iff.mpr ⟨(Bool.and_eq_true_iff.mp h).1, hxs⟩
    | _ => exact hxs

theorem Step.isPlain_of_free {s : Step} (hfree : s.isFree = true)
    (h : s.isNamed = true ∧ s ≠ .entry) : s.isPlain = true := by
  cases s with
  | entry => exact absurd rfl h.2
  | instruction | raw => exact nomatch h.1
  | ifStart | elseStart | endIf | forLoop | forEnd | switch | caseArm | defaultCase | endSwitch =>
    exact nomatch hfree
  | _ => rfl

/-- A row starts with a step of its own. -/
theorem Outline.endsArm_of_mem_head? {o : Outline .row} {s : Step} (h : s ∈ o.steps.head?) :
    s.endsArm = false := by
  cases o with
  | done => exact nomatch h
  | step s' rest =>
    obtain ⟨s', hs'⟩ := s'
    cases Option.some.inj h
    cases s' with
    | caseArm | defaultCase | endSwitch => exact nomatch hs'
    | _ => rfl
  | ifThen | ifElse | loop | switch => cases Option.some.inj h; rfl

/-- If an arm comes first in a switch, nothing stands between the header and the arms. -/
theorem Outline.steps_eq_nil_of_armsFirst {var : UInt8} {front : Outline .row} {post : List Step}
    (h : Step.armsFirst (.switch var :: (front.steps ++ post)) = true) : front.steps = [] := by
  cases hsteps : front.steps with
  | nil => rfl
  | cons s more =>
    rw [hsteps] at h
    have hends : s.endsArm = true := (Bool.and_eq_true_iff.mp h).1
    rw [front.endsArm_of_mem_head? (by rw [hsteps]; rfl)] at hends
    exact absurd hends Bool.false_ne_true

namespace Code

/-- An outline of named steps whose switches start with an arm is nested code. -/
theorem exists_of_outline {k : Kind} {o : Outline k}
    (hnamed : ∀ s ∈ o.steps, s.isNamed = true ∧ s ≠ .entry)
    (harms : Step.armsFirst o.steps = true) : ∃ c : Code k, c.steps = o.steps := by
  -- rule by rule: both conditions go over to the parts of a block, where the trees are
  induction o with
  | done => exact ⟨done, rfl⟩
  | step s rest hrest =>
    rw [Outline.steps, List.forall_mem_cons] at hnamed
    obtain ⟨c, hc⟩ := hrest hnamed.2 (Step.armsFirst_tail harms)
    exact ⟨step ⟨s.val, Step.isPlain_of_free s.property hnamed.1⟩ c,
      by rw [steps, Outline.steps, hc]⟩
  | ifThen body rest hbody hrest =>
    simp only [Outline.steps, List.cons_append, List.forall_mem_cons, List.forall_mem_append]
      at hnamed harms
    obtain ⟨-, hbodyNamed, -, hrestNamed⟩ := hnamed
    obtain ⟨hbodyArms, hrestArms⟩ := Step.armsFirst_append (Step.armsFirst_tail harms)
    obtain ⟨c, hc⟩ := hbody hbodyNamed hbodyArms
    obtain ⟨d, hd⟩ := hrest hrestNamed (Step.armsFirst_tail hrestArms)
    exact ⟨ifThen c d, by rw [steps, Outline.steps, hc, hd]⟩
  | ifElse body other rest hbody hother hrest =>
    simp only [Outline.steps, List.cons_append, List.append_assoc, List.forall_mem_cons,
      List.forall_mem_append] at hnamed harms
    obtain ⟨-, hbodyNamed, -, hotherNamed, -, hrestNamed⟩ := hnamed
    obtain ⟨hbodyArms, helseArms⟩ := Step.armsFirst_append (Step.armsFirst_tail harms)
    obtain ⟨hotherArms, hrestArms⟩ := Step.armsFirst_append (Step.armsFirst_tail helseArms)
    obtain ⟨c, hc⟩ := hbody hbodyNamed hbodyArms
    obtain ⟨d, hd⟩ := hother hotherNamed hotherArms
    obtain ⟨e, he⟩ := hrest hrestNamed (Step.armsFirst_tail hrestArms)
    exact ⟨ifElse c d e, by rw [steps, Outline.steps, hc, hd, he]⟩
  | loop count body rest hbody hrest =>
    simp only [Outline.steps, List.cons_append, List.forall_mem_cons, List.forall_mem_append]
      at hnamed harms
    obtain ⟨-, hbodyNamed, -, hrestNamed⟩ := hnamed
    obtain ⟨hbodyArms, hrestArms⟩ := Step.armsFirst_append (Step.armsFirst_tail harms)
    obtain ⟨c, hc⟩ := hbody hbodyNamed hbodyArms
    obtain ⟨d, hd⟩ := hrest hrestNamed (Step.armsFirst_tail hrestArms)
    exact ⟨loop count c d, by rw [steps, Outline.steps, hc, hd]⟩
  | switch var front arms rest hfront hmore hrest =>
    simp only [Outline.steps, List.cons_append, List.append_assoc, List.forall_mem_cons,
      List.forall_mem_append] at hnamed harms
    obtain ⟨-, -, harmsNamed, -, hrestNamed⟩ := hnamed
    -- a tree has no room for steps in front of the arms, and there are none
    have hempty := Outline.steps_eq_nil_of_armsFirst harms
    obtain ⟨-, hbehind⟩ := Step.armsFirst_append (Step.armsFirst_tail harms)
    obtain ⟨harmsArms, hrestArms⟩ := Step.armsFirst_append hbehind
    obtain ⟨c, hc⟩ := hmore harmsNamed harmsArms
    obtain ⟨d, hd⟩ := hrest hrestNamed (Step.armsFirst_tail hrestArms)
    exact ⟨switch var c d, by simp [steps, Outline.steps, hc, hd, hempty]⟩
  | arm label body more hbody hmore =>
    simp only [Outline.steps, List.cons_append, List.forall_mem_cons, List.forall_mem_append]
      at hnamed harms
    obtain ⟨-, hbodyNamed, hmoreNamed⟩ := hnamed
    obtain ⟨hbodyArms, hmoreArms⟩ := Step.armsFirst_append (Step.armsFirst_tail harms)
    obtain ⟨c, hc⟩ := hbody hbodyNamed hbodyArms
    obtain ⟨d, hd⟩ := hmore hmoreNamed hmoreArms
    exact ⟨arm label c d, by rw [steps, Outline.steps, hc, hd]⟩

/-- **Named steps that leave no mistake and nothing open are nested code.** -/
theorem exists_of_run {steps : List Step} (hnamed : ∀ s ∈ steps, s.isNamed = true ∧ s ≠ .entry)
    (harms : Step.armsFirst steps = true) (herr : (Builder.run steps).error = none)
    (hopen : (Builder.run steps).opened = []) : ∃ c : Code .row, c.steps = steps := by
  obtain ⟨o, rfl⟩ := Outline.exists_of_run herr hopen
  exact exists_of_outline hnamed harms

end Code

/-! ### Entry points -/

namespace Builder

variable (b : Builder) (entries : Array Nat)

/-- The same code with other entry points. -/
def withEntries : Builder := { b with entries := entries }

@[simp] theorem opened_withEntries : (b.withEntries entries).opened = b.opened := rfl

@[simp] theorem closeBlock_withEntries :
    (b.withEntries entries).closeBlock = b.closeBlock.withEntries entries := rfl

theorem emit_withEntries (op : Opcode) (payload : List UInt8) :
    (b.withEntries entries).emit op payload = (b.emit op payload).withEntries entries := by
  unfold emit
  split <;> rfl

theorem patch_withEntries (field length : Nat) :
    (b.withEntries entries).patch field length = (b.patch field length).withEntries entries := by
  unfold patch
  split <;> rfl

theorem closeArm_withEntries :
    (b.withEntries entries).closeArm = b.closeArm.withEntries entries := by
  unfold closeArm
  simp only [opened_withEntries]
  split
  · exact patch_withEntries b.closeBlock entries _ _
  · rfl
  · rfl

theorem finish_withEntries (start : Nat) (header closer : Opcode) :
    (b.withEntries entries).finish start header closer =
      (b.finish start header closer).withEntries entries := by
  unfold finish
  simp only
  rw [closeBlock_withEntries, emit_withEntries, patch_withEntries]
  rfl

theorem write_withEntries (s : Step) :
    (b.withEntries entries).write s = (b.write s).withEntries entries := by
  unfold write
  split
  · exact emit_withEntries b entries _ _
  · rfl

/-- A step that declares no entry point does not look at them. -/
theorem apply_withEntries {s : Step} (hs : s ≠ .entry) :
    (b.withEntries entries).apply s = (b.apply s).withEntries entries := by
  -- no part of a step but `entry` looks at the entry points
  cases s with
  | entry => exact absurd rfl hs
  | raw => rfl
  | ifStart | forLoop | switch =>
    unfold apply
    exact write_withEntries (b.openBlock _) entries _
  | elseStart =>
    simp only [apply_elseStart, elseStart, opened_withEntries]
    split
    · rw [closeBlock_withEntries, patch_withEntries]
      exact emit_withEntries (openBlock _ _) entries _ _
    · rfl
  | endIf =>
    simp only [apply_endIf, endIf, opened_withEntries]
    split
    · exact finish_withEntries b entries _ _ _
    · exact patch_withEntries b.closeBlock entries _ _
    · rfl
  | forEnd =>
    simp only [apply_forEnd, forEnd, opened_withEntries]
    split
    · exact finish_withEntries b entries _ _ _
    · rfl
  | caseArm v =>
    unfold apply
    simp only [closeArm_withEntries]
    exact write_withEntries (b.closeArm.openBlock _) entries _
  | defaultCase =>
    unfold apply
    simp only [closeArm_withEntries]
    exact write_withEntries (b.closeArm.openBlock _) entries _
  | endSwitch =>
    simp only [apply_endSwitch, endSwitch, closeArm_withEntries, opened_withEntries]
    split
    · exact finish_withEntries b.closeArm entries _ _ _
    · rfl
  | _ =>
    unfold apply
    exact write_withEntries b entries _

theorem entries_apply {s : Step} (hs : s ≠ .entry) : (b.apply s).entries = b.entries := by
  have h := congrArg Builder.entries (apply_withEntries b b.entries hs)
  exact h

/-- The steps that are not entry points. -/
def written (steps : List Step) : List Step := steps.filter (· != .entry)

/-- Entry points leave the code alone. -/
theorem run_written (steps : List Step) :
    run (written steps) = (run steps).withEntries #[] := by
  -- from any script, since the steps before have left theirs
  have hfold : ∀ b : Builder, (written steps).foldl apply (b.withEntries #[]) =
      (steps.foldl apply b).withEntries #[] := by
    induction steps with
    | nil => exact fun b => rfl
    | cons s steps ih =>
      intro b
      by_cases hs : s = .entry
      · subst hs
        exact ih (b.apply .entry)
      · rw [written, List.filter_cons_of_pos (by simpa using hs), List.foldl_cons, List.foldl_cons,
          apply_withEntries b #[] hs]
        exact ih (b.apply s)
  exact hfold {}

theorem code_written (steps : List Step) : (run (written steps)).code = (run steps).code := by
  rw [run_written]
  rfl

theorem opened_written (steps : List Step) :
    (run (written steps)).opened = (run steps).opened := by
  rw [run_written]
  rfl

/-- A step that was written is one of the steps. -/
theorem exists_of_written {steps pre' : List Step} {s : Step} {post' : List Step}
    (h : written steps = pre' ++ s :: post') :
    ∃ pre post, steps = pre ++ s :: post ∧ written pre = pre' ∧
      written (pre ++ [s]) = pre' ++ [s] := by
  obtain ⟨l₁, l₂, rfl, h₁, h₂⟩ := List.filter_eq_append_iff.mp h
  obtain ⟨m₁, m₂, rfl, hm, hs, -⟩ := List.filter_eq_cons_iff.mp h₂
  have hpre : written (l₁ ++ m₁) = pre' := by
    rw [written, List.filter_append, h₁, List.filter_eq_nil_iff.mpr hm, List.append_nil]
  have hne : s ≠ .entry := by simpa using hs
  exact ⟨l₁ ++ m₁, m₂, by simp, hpre, by simp [← hpre, written, hne]⟩

/-- **An entry point is the size of the code before it.** -/
theorem exists_entry {steps : List Step} {address : Nat} (h : address ∈ (run steps).entries) :
    ∃ pre post, steps = pre ++ .entry :: post ∧ (run pre).code.size = address := by
  -- with the steps already carried out in hand: the entry point is one of theirs, or still to come
  have hsplit : ∀ (steps pre : List Step), address ∈ (run (pre ++ steps)).entries →
      address ∈ (run pre).entries ∨ ∃ pre' post, steps = pre' ++ .entry :: post ∧
        (run (pre ++ pre')).code.size = address := by
    intro steps
    induction steps with
    | nil => exact fun pre h => .inl (by rwa [List.append_nil] at h)
    | cons s rest ih =>
      intro pre h
      rw [List.append_cons] at h
      rcases ih (pre ++ [s]) h with h | ⟨pre', post, rfl, hsize⟩
      · rw [run, List.foldl_append] at h
        by_cases hs : s = .entry
        · subst hs
          rcases Array.mem_push.mp h with h | h
          · exact .inl h
          · exact .inr ⟨[], rest, rfl, by rw [List.append_nil]; exact h.symm⟩
        · exact .inl (entries_apply (run pre) hs ▸ h)
      · exact .inr ⟨s :: pre', post, rfl, by rw [List.append_cons]; exact hsize⟩
  rcases hsplit steps [] h with h | h
  · exact absurd h (Array.not_mem_empty _)
  · exact h

end Builder

end RoomScript
