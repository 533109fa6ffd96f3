import RoomScript.Proofs.Reading
import RoomScript.Proofs.Run

/-!
# What nested code means

The meaning of nested code is what it does to a game, read off the tree alone: there are no
addresses, no lengths and no stacks in it. A piece of code changes the host and the selected entity,
and comes to an end in one of a few ways. A condition that fails leaves the then-part it stands in,
a break leaves the loop or switch it stands in, and the end of the script and a statement that
cannot be carried out leave everything.

A switch looks for the first arm that takes the value of its variable, and runs on from there: the
end of an arm is no reason to leave the switch, so the arms behind it run as well unless there is a
break.

**Main statements.** `Code.exec` is the meaning of a piece of code, `Code.select` that of the arms
of a switch for a value. `Code.select_eq`: the arms that run are those from `Code.chosen` on.
`Code.exec_ne_done`: code that ends with the end of the script does not run past it.
-/

namespace RoomScript

open Code Payload

/-! ### Statements -/

/-- How a piece of code comes to its end. -/
inductive Ending
  /-- Behind its last statement. -/
  | done
  /-- At a condition that failed. -/
  | failed
  /-- At a break. -/
  | broke
  /-- At the end of the script. -/
  | ended
  /-- At a statement that cannot be carried out. -/
  | fault (cause : Fault)
  deriving DecidableEq, Repr

/-- What a statement does: the writes it asks for, the entity that is selected afterwards, and how
it comes out. -/
structure Deed where
  writes : List Write := []
  selected : WorkSet
  ending : Ending := .done

/-- The value of a calculation is stored; one that has no value is not carried out. -/
def Deed.store (selected : WorkSet) (var : UInt8) : Except Fault Int32 → Deed
  | .ok value => { writes := [.setVariable var value], selected := selected }
  | .error f => { selected := selected, ending := .fault f }

/-- A condition holds or fails, and does nothing else. -/
def Deed.condition (selected : WorkSet) (holds : Bool) : Deed :=
  { selected := selected, ending := if holds then .done else .failed }

/-- **What a statement does**, given what can be read of the game and the entity that is selected.
The steps that open and close blocks do nothing by themselves. -/
def Step.deed (view : Host.View) (selected : WorkSet) : Step → Deed
  | .evtEnd => { selected := selected, ending := .ended }
  | .breakLoop => { selected := selected, ending := .broke }
  | .check array bit value =>
    .condition selected ((if view.bit array bit then 1 else 0) = value)
  | .compare var operation value =>
    .condition selected (Calculator.compareValues operation (view.var var) value.toInt32)
  | .setBit array bit operation =>
    match operation.toNat with
    | 0 => { writes := [.setBit array bit false], selected := selected }
    | 1 => { writes := [.setBit array bit true], selected := selected }
    | 7 => { writes := [.setBit array bit (!view.bit array bit)], selected := selected }
    | _ => { selected := selected, ending := .fault (.invalidBitOperation operation) }
  | .save var value => { writes := [.setVariable var value.toInt32], selected := selected }
  | .copy dest source => { writes := [.setVariable dest (view.var source)], selected := selected }
  | .calculate operation var value =>
    .store selected var (Calculator.calculate operation (view.var var) value.toInt32)
  | .calculateFrom operation var source =>
    .store selected var (Calculator.calculate operation (view.var var) (view.var source))
  | .cutChg camera => { writes := [.changeCamera camera], selected := selected }
  | .workSet component index => { selected := ⟨component, index⟩ }
  | .posSet x y z =>
    -- only the player can be moved
    match selected.target with
    | .player =>
      { writes := [.setPlayerPosition (.ofInt x.toInt) (.ofInt y.toInt) (.ofInt z.toInt)]
        selected := selected }
    | _ => { selected := selected }
  | .memberSet member value =>
    if member = MemberSet.rotation then
      match selected.target with
      | .player => { writes := [.setPlayerRotation (.ofTurn value)], selected := selected }
      | .object index => { writes := [.rotateModel index (.ofTurn value)], selected := selected }
      | _ => { selected := selected }
    else { selected := selected }
  | .scaIdSet id flag =>
    if flag = 0 then { writes := [.removeCollision id], selected := selected }
    else { selected := selected }
  | _ => { selected := selected }

/-- A game with the entity that is selected in it. -/
structure Play (σ : Type) where
  host : σ
  selected : WorkSet := {}

namespace Play

variable {σ : Type}

/-- Goes on with more code behind the end of some. -/
def andThen (out : Play σ × Ending) (next : Play σ → Play σ × Ending) : Play σ × Ending :=
  match out with
  | (g, .done) => next g
  | out => out

/-- The rounds of a loop. -/
def rounds (body : Play σ → Play σ × Ending) : Nat → Play σ → Play σ × Ending
  | 0, g => (g, .done)
  | n + 1, g => andThen (body g) (rounds body n)

/-- Goes on behind a loop or a switch, which a break leaves as well. -/
def leave (out : Play σ × Ending) (next : Play σ → Play σ × Ending) : Play σ × Ending :=
  match out with
  | (g, .done) | (g, .broke) => next g
  | out => out

/-- Carries out a statement. -/
def carryOut [Host σ] (g : Play σ) (s : Step) : Play σ × Ending :=
  let d := s.deed (Host.view g.host) g.selected
  (⟨Host.performAll g.host d.writes, d.selected⟩, d.ending)

section Sequences

variable {out : Play σ × Ending} {next : Play σ → Play σ × Ending}

theorem andThen_ne_done (h : ∀ g, (next g).2 ≠ .done) : (andThen out next).2 ≠ .done := by
  unfold andThen
  split
  · exact h _
  · next hout => exact fun hdone => hout out.1 (Prod.ext rfl hdone)

theorem leave_ne_done (h : ∀ g, (next g).2 ≠ .done) : (leave out next).2 ≠ .done := by
  unfold leave
  split
  · exact h _
  · exact h _
  · next hout _ => exact fun hdone => hout out.1 (Prod.ext rfl hdone)

end Sequences

end Play

/-! ### Code -/

namespace Code

open Play

variable {σ : Type} [Host σ]

mutual

/-- **What code does to a game.** The arms of a switch run one after another. -/
def exec : {k : Kind} → Code k → Play σ → Play σ × Ending
  | _, .done, g => (g, .done)
  | _, .step s rest, g => andThen (g.carryOut s.val) rest.exec
  | _, .ifThen body rest, g =>
    match body.exec g with
    | (g, .failed) => rest.exec g
    | out => andThen out rest.exec
  | _, .ifElse body other rest, g =>
    match body.exec g with
    | (g, .failed) => andThen (other.exec g) rest.exec
    | out => andThen out rest.exec
  | _, .loop count body rest, g => leave (rounds body.exec count.toNat g) rest.exec
  | _, .switch var arms rest, g => leave (arms.select (Host.var g.host var) g) rest.exec
  | _, .arm _ body more, g => andThen (body.exec g) more.exec
termination_by structural _ c => c

/-- **What the arms of a switch do for a value**: nothing up to the first arm that takes it. -/
def select (value : Int32) : {k : Kind} → Code k → Play σ → Play σ × Ending
  | _, .arm none body more, g => andThen (body.exec g) more.exec
  | _, .arm (some v) body more, g =>
    if (v.toNat : Int) = value.toInt then andThen (body.exec g) more.exec
    else more.select value g
  | _, _, g => (g, .done)
termination_by structural _ c => c

end

/-- The arms that run for a value are those from the one that takes it on. -/
theorem select_eq (value : Int32) {k : Kind} (c : Code k) (g : Play σ) :
    c.select value g = match c.chosen value with
      | some (body, more) => andThen (body.exec g) more.exec
      | none => (g, .done) := by
  induction c with
  | arm label body more _ ih =>
    cases label with
    | none => rfl
    | some v =>
      rw [select, chosen]
      by_cases hv : (v.toNat : Int) = value.toInt
      · rw [if_pos hv, if_pos hv]
      · rw [if_neg hv, if_neg hv]
        exact ih
  | _ => rfl

/-! ### The end of a script -/

/-- What the last step of a row is told by the code behind another step. -/
private theorem getLast?_of_cons {a b : Step} (xs : List Step) {ys : List Step}
    (h : (xs ++ a :: ys).getLast? = some b) (hne : a ≠ b) : ys.getLast? = some b := by
  rw [List.getLast?_append, List.getLast?_cons] at h
  cases hys : ys.getLast? with
  | none =>
    rw [hys] at h
    exact absurd (Option.some.inj h) hne
  | some c =>
    rw [hys] at h
    exact h

/-- **Code that ends with the end of the script does not run past it.** -/
theorem exec_ne_done {c : Code .row} (h : c.steps.getLast? = some .evtEnd) (g : Play σ) :
    (c.exec g).2 ≠ .done := by
  have hrow : ∀ {k : Kind} (c : Code k), k = .row → c.steps.getLast? = some .evtEnd →
      ∀ g : Play σ, (c.exec g).2 ≠ .done := by
    intro k c
    -- nothing is asked of the bodies: one that does not get done keeps the row from it, too
    induction c with
    | done => exact fun _ h => nomatch h
    | step s rest ih =>
      intro _ h g
      rw [exec]
      by_cases hs : s.val = .evtEnd
      · rw [Play.carryOut, hs]
        exact nofun
      · exact andThen_ne_done (ih rfl (getLast?_of_cons [] h hs))
    | ifThen body rest _ ih =>
      intro _ h g
      have hrest := ih rfl (getLast?_of_cons (.ifStart :: body.steps) h nofun)
      rw [exec]
      split
      · exact hrest _
      · exact andThen_ne_done hrest
    | ifElse body other rest _ _ ih =>
      intro _ h g
      have hrest := ih rfl
        (getLast?_of_cons (.ifStart :: body.steps ++ .elseStart :: other.steps) h nofun)
      rw [exec]
      split
      · exact andThen_ne_done hrest
      · exact andThen_ne_done hrest
    | loop count body rest _ ih =>
      intro _ h g
      have hrest := ih rfl (getLast?_of_cons (.forLoop count :: body.steps) h nofun)
      rw [exec]
      exact leave_ne_done hrest
    | switch var arms rest _ ih =>
      intro _ h g
      have hrest := ih rfl (getLast?_of_cons (.switch var :: arms.steps) h nofun)
      rw [exec]
      exact leave_ne_done hrest
    | arm => exact nofun
  exact hrow c rfl h g

end Code

end RoomScript
