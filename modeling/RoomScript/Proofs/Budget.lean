import RoomScript.Proofs.Reading
import RoomScript.Proofs.Turns
import RoomScript.Session

/-!
# The budget

A script can keep a thread busy for ever, and a budget is what stops it. A budget is not meant to be
noticed otherwise: a dispatch that is done within it must go as it would without one, and a dispatch
that is not must have done exactly what it was allowed to do.

A dispatch *without* a budget is the one to compare with. It is followed along the rules of
`Machine.Dispatched`, and a dispatch with a budget is shown to go the same way for as long as the
budget lasts. The fuel plays no part in this: a dispatch with a budget needs one round more than
the budget has instructions, and what it is given beyond that is not touched.

Inside one instruction there is a loop that no budget watches, the search for an arm of a switch.
Every arm it passes over is six bytes of the script, so the script is too short for a long search.

**Main statements.** `Machine.Dispatched.within_budget` and `Machine.Dispatched.beyond_budget`: how
a dispatch with a budget follows one without. `Control.length_scanned_le`: how far a search for an
arm can go. `Machine.budget_transparent`: the two together, for every script and every machine.
-/

namespace RoomScript

/-- The same rules with another budget. -/
def Rules.withBudget (rules : Rules) (budget : Option Nat) : Rules :=
  { rules with budget := budget }

/-! ### The search for an arm -/

/-- **A search for an arm fetches one instruction for every six bytes of the script** that are left
to it, and one more. -/
theorem Control.length_scanned_le (script : Script) (value : Int32) (a : Nat) :
    (scanned script value a).length ≤ (script.data.size - a) / Opcode.caseArm.size + 1 := by
  induction a using scanned.induct script with
  | _ scan ih =>
    rw [scanned, List.length_cons]
    split
    next raw hf =>
      split
      · exact Nat.succ_le_succ (Nat.zero_le _)
      · next arm _ =>
        split
        · exact Nat.succ_le_succ (Nat.zero_le _)
        · -- the arm that is passed over was fetched, so its six bytes are in the script
          have hrest := ih raw hf arm
          have hfetched := (Script.fetch_eq_ok_iff.mp hf).2.1
          have hsize : Opcode.caseArm.size = 6 := rfl
          rw [hsize] at hfetched hrest ⊢
          omega
    next => exact Nat.succ_le_succ (Nat.zero_le _)

namespace Machine

variable {n : Nat} {σ : Type} [Host σ]

/-! ### One round with and without a budget -/

section Round

variable (rules : Rules) (script : Script) (i : Fin n) (m : Machine n σ)

/-- A turn does not look at the budget. -/
@[simp] theorem turn_withBudget (budget : Option Nat) (op : Opcode) (raw : Bytes) :
    m.turn (rules.withBudget budget) script i op raw = m.turn rules script i op raw := rfl

/-- **The machine after the instruction a thread stands on**, and after the unwinding that it
caused. -/
def afterTurn : Machine n σ :=
  match script.fetch (m.pool.thread i).pc with
  | .ok (op, raw) => (m.turn rules script i op raw).1
  | .error _ => m

end Round

/-- The machine after the first instructions that a thread executes. -/
def after (rules : Rules) (script : Script) (i : Fin n) : Nat → Machine n σ → Machine n σ
  | 0, m => m
  | k + 1, m => after rules script i k (m.afterTurn rules script i)

section Budget

variable {rules : Rules} {executed budget : Nat} (thread : Nat)

theorem overBudget?_of_lt (h : executed < budget) :
    overBudget? (rules.withBudget (some budget)) thread executed = none :=
  if_neg (Nat.not_le.mpr h)

theorem overBudget?_of_le (h : budget ≤ executed) :
    overBudget? (rules.withBudget (some budget)) thread executed =
      some (.budgetExceeded thread budget) :=
  if_pos h

end Budget

section Round

variable {rules : Rules} {script : Script} {i : Fin n} {m m' : Machine n σ}
  {op : Opcode} {raw : Bytes} {fuel executed budget : Nat}

theorem after_succ {result : Except Fault Pulse}
    (hf : script.fetch (m.pool.thread i).pc = .ok (op, raw))
    (ht : m.turn rules script i op raw = (m', result)) (k : Nat) :
    after rules script i (k + 1) m = after rules script i k m' := by
  have hturn : m.afterTurn rules script i = m' := by rw [afterTurn, hf]; exact congrArg Prod.fst ht
  rw [after, hturn]

/-- A round that stays within the budget. -/
theorem dispatch_of_lt {pulse : Except Fault Pulse}
    (hf : script.fetch (m.pool.thread i).pc = .ok (op, raw))
    (ht : m.turn rules script i op raw = (m', pulse)) (hlt : executed < budget) :
    dispatch (rules.withBudget (some budget)) script i (fuel + 1) executed m =
      match pulse with
      | .error f => (m', .error (.fault f))
      | .ok .yielded => (m', .ok ())
      | .ok .running =>
        dispatch (rules.withBudget (some budget)) script i fuel (executed + 1) m' := by
  rw [dispatch, hf]
  simp only [overBudget?_of_lt i hlt, turn_withBudget, ht]
  rcases pulse with f | _ | _ <;> rfl

/-- A round for which nothing is left of the budget. -/
theorem dispatch_of_spent (hf : script.fetch (m.pool.thread i).pc = .ok (op, raw)) :
    dispatch (rules.withBudget (some budget)) script i (fuel + 1) budget m =
      (m, .error (.fault (.budgetExceeded i budget))) := by
  rw [dispatch, hf]
  simp only [overBudget?_of_le i (Nat.le_refl budget)]

/-! ### A whole dispatch with and without a budget -/

variable {visits : List (Machine n σ)} {turns : List (Turn n σ)} {result : Except Stop Unit}

/-- **A dispatch that is done within the budget goes as it would without one.** -/
theorem Dispatched.within_budget
    (h : Dispatched (rules.withBudget none) script i m visits turns m' result)
    (hstops : result ≠ .error .outOfFuel) (hbudget : executed + turns.length ≤ budget)
    (hfuel : turns.length < fuel) :
    dispatch (rules.withBudget (some budget)) script i fuel executed m = (m', result) := by
  obtain ⟨fuel, rfl⟩ := Nat.exists_eq_succ_of_ne_zero (Nat.ne_zero_of_lt hfuel)
  -- along the dispatch without a budget, with what was executed before it
  induction h generalizing executed fuel with
  | outOfFuel => exact absurd rfl hstops
  | unread hf =>
    -- the instruction is looked at before the budget, so it does not matter what is left
    rw [dispatch, hf]
  | overBudget _ hb => cases hb
  | faults hf ht | yields hf ht =>
    rw [turn_withBudget] at ht
    have hlt : executed < budget := hbudget
    rw [dispatch_of_lt hf ht hlt]
  | goesOn hf ht _ ih =>
    rw [List.length_cons] at hbudget hfuel
    rw [turn_withBudget] at ht
    rw [dispatch_of_lt hf ht (by omega)]
    obtain ⟨fuel, rfl⟩ : ∃ k, fuel = k + 1 := ⟨fuel - 1, by omega⟩
    exact ih hstops (by omega) fuel (by omega)

/-- **A dispatch that goes beyond the budget is stopped where the budget is spent**, with everything
done that was allowed. -/
theorem Dispatched.beyond_budget
    (h : Dispatched (rules.withBudget none) script i m visits turns m' result) {left : Nat}
    (hleft : left < turns.length) (hfuel : left < fuel) (hbudget : executed + left = budget) :
    dispatch (rules.withBudget (some budget)) script i fuel executed m =
      (after rules script i left m, .error (.fault (.budgetExceeded i budget))) := by
  obtain ⟨fuel, rfl⟩ := Nat.exists_eq_succ_of_ne_zero (Nat.ne_zero_of_lt hfuel)
  induction h generalizing executed fuel left with
  | outOfFuel | unread _ | overBudget _ _ => exact nomatch hleft
  | faults hf _ | yields hf _ =>
    -- the one instruction there is would be one too many
    obtain rfl : left = 0 := by simpa using hleft
    obtain rfl : executed = budget := hbudget
    exact dispatch_of_spent hf
  | goesOn hf ht _ ih =>
    cases left with
    | zero =>
      obtain rfl : executed = budget := hbudget
      exact dispatch_of_spent hf
    | succ left =>
      rw [List.length_cons] at hleft
      rw [turn_withBudget] at ht
      rw [dispatch_of_lt hf ht (by omega), after_succ hf ht]
      obtain ⟨fuel, rfl⟩ : ∃ k, fuel = k + 1 := ⟨fuel - 1, by omega⟩
      exact ih (by omega) (by omega) fuel (by omega)

end Round

section Length

variable {rules : Rules} {script : Script} {i : Fin n} {m : Machine n σ}

/-- A dispatch without a budget that runs out of fuel has executed an instruction for all of it. -/
theorem length_dispatchTurns_of_outOfFuel {fuel executed : Nat}
    (h : (dispatch (rules.withBudget none) script i fuel executed m).2 = .error .outOfFuel) :
    (dispatchTurns (rules.withBudget none) script i fuel executed m).length = fuel := by
  -- every round that does not stop the dispatch costs one unit of fuel and is one turn
  induction fuel generalizing executed m with
  | zero => rfl
  | succ fuel ih =>
    have hnone : overBudget? (rules.withBudget none) i executed = none := rfl
    rw [dispatch] at h
    rw [dispatchTurns]
    cases hf : script.fetch (m.pool.thread i).pc with
    | error f =>
      rw [hf] at h
      cases h
    | ok fetched =>
      simp only [hf, hnone] at h ⊢
      rcases ht : m.turn (rules.withBudget none) script i fetched.1 fetched.2 with ⟨m', f | _ | _⟩
      · rw [ht] at h
        cases h
      · rw [ht] at h
        rw [List.length_cons, ih h]
      · rw [ht] at h
        cases h

/-- **A dispatch never executes more than its budget.** -/
theorem length_dispatchTurns_le {budget : Nat} (fuel executed : Nat) :
    (dispatchTurns (rules.withBudget (some budget)) script i fuel executed m).length ≤
      budget - executed := by
  induction fuel generalizing executed m with
  | zero => exact Nat.zero_le _
  | succ fuel ih =>
    rw [dispatchTurns]
    cases script.fetch (m.pool.thread i).pc with
    | error f => exact Nat.zero_le _
    | ok fetched =>
      by_cases hlt : executed < budget
      · -- one more, and what is left of the budget for the rounds behind it
        simp only [overBudget?_of_lt i hlt, List.length_cons]
        rcases m.turn (rules.withBudget (some budget)) script i fetched.1 fetched.2 with
          ⟨m', f | _ | _⟩
        · simp only [List.length_nil]; omega
        · have hrest := ih (m := m') (executed + 1)
          simp only
          omega
        · simp only [List.length_nil]; omega
      · simp only [overBudget?_of_le i (Nat.not_lt.mp hlt), List.length_nil, Nat.zero_le]

end Length

/-! ### Transparency -/

/-- **The budget is transparent, and it guarantees an end.** A dispatch with a budget executes no
more instructions than that, comes to an end with every amount of fuel beyond it, and no search for
an arm goes on for longer than the script has arms. It is compared with a dispatch that has no
budget: one that stops with as many instructions as the budget has, or fewer, is what comes about;
if it needs more, or never stops, then the thread is stopped for the budget, and the machine is as
the instructions before have left it. -/
theorem budget_transparent (rules : Rules) (script : Script) (i : Fin n) (m : Machine n σ)
    (budget : Nat) {fuel : Nat} (hfuel : budget < fuel) :
    let bounded := dispatch (rules.withBudget (some budget)) script i fuel 0 m
    let spent := (after rules script i budget m,
      (.error (.fault (.budgetExceeded i budget)) : Except Stop Unit))
    -- it ends
    bounded.2 ≠ .error .outOfFuel ∧
    (dispatchTurns (rules.withBudget (some budget)) script i fuel 0 m).length ≤ budget ∧
    (∀ value a, (Control.scanned script value a).length ≤
      (script.data.size - a) / Opcode.caseArm.size + 1) ∧
    -- it is as it would be without a budget
    (∀ enough, (dispatch (rules.withBudget none) script i enough 0 m).2 ≠ .error .outOfFuel →
      let turns := dispatchTurns (rules.withBudget none) script i enough 0 m
      (turns.length ≤ budget →
        bounded = dispatch (rules.withBudget none) script i enough 0 m) ∧
      (budget < turns.length → bounded = spent)) ∧
    ((∀ enough, (dispatch (rules.withBudget none) script i enough 0 m).2 = .error .outOfFuel) →
      bounded = spent) := by
  intro bounded spent
  have hfree := fun enough =>
    dispatch_dispatched (rules.withBudget none) script i enough 0 m
  have hwithin : ∀ enough,
      (dispatch (rules.withBudget none) script i enough 0 m).2 ≠ .error .outOfFuel →
      (dispatchTurns (rules.withBudget none) script i enough 0 m).length ≤ budget →
      bounded = dispatch (rules.withBudget none) script i enough 0 m := by
    intro enough hstops hle
    exact (hfree enough).within_budget hstops (by omega) (by omega)
  have hbeyond : ∀ enough,
      budget < (dispatchTurns (rules.withBudget none) script i enough 0 m).length →
      bounded = spent := by
    intro enough hlt
    exact (hfree enough).beyond_budget hlt hfuel (Nat.zero_add budget)
  -- one round more than the budget tells the two cases apart
  have hrunaway : (dispatch (rules.withBudget none) script i (budget + 1) 0 m).2 =
      .error .outOfFuel → bounded = spent := by
    intro h
    exact hbeyond (budget + 1) (by rw [length_dispatchTurns_of_outOfFuel h]; omega)
  have hends : bounded.2 ≠ .error .outOfFuel := by
    by_cases hstops : (dispatch (rules.withBudget none) script i (budget + 1) 0 m).2 =
        .error .outOfFuel
    · rw [hrunaway hstops]
      exact nofun
    · rcases Nat.lt_or_ge budget
          (dispatchTurns (rules.withBudget none) script i (budget + 1) 0 m).length with hlt | hle
      · rw [hbeyond _ hlt]
        exact nofun
      · rw [hwithin _ hstops hle]
        exact hstops
  exact ⟨hends, length_dispatchTurns_le fuel 0, Control.length_scanned_le script,
    fun enough hstops => ⟨hwithin enough hstops, hbeyond enough⟩, fun h => hrunaway (h _)⟩

end Machine

/-- Three instructions and nothing else: two that do nothing, and the end. -/
def Script.brief : Script where
  data := #[0x00, 0x00, 0x01, 0x00]
  entries := [0]
  entries_lt := by decide

/-- A sleep that is broken off inside itself. Its frame sends the thread back to the first address,
so it is busy for ever. -/
def Script.restless : Script where
  data := #[0x09, 0x1A, 0x00, 0x00]
  entries := [0]
  entries_lt := by decide

namespace Machine

/-- One thread at the first entry point of a script. -/
def alone (script : Script) : Machine 1 Stage :=
  ((Machine.idle 1 ({} : Stage)).start {} script 0 0).1

set_option maxRecDepth 4000 in
theorem dispatch_restless (fuel executed : Nat) :
    (dispatch (Rules.withBudget {} none) .restless 0 fuel executed (alone .restless)).2 =
      .error .outOfFuel := by
  -- the first round leaves its traces on the thread, and every later one finds them as it left them
  have hlater : ∀ fuel executed, (dispatch (Rules.withBudget {} none) .restless 0 fuel executed
      (after {} .restless 0 2 (alone .restless))).2 = .error .outOfFuel := by
    intro fuel
    induction fuel using Nat.strongRecOn with
    | ind fuel ih =>
      intro executed
      match fuel with
      | 0 | 1 => rfl
      | fuel + 2 => exact ih fuel (by omega) (executed + 2)
  match fuel with
  | 0 | 1 => rfl
  | fuel + 2 => exact hlater fuel (executed + 2)

/-- Three instructions are not stopped by a budget of three, and are by a budget of two; a thread
that is busy for ever is stopped by every budget. -/
theorem budget_transparent_alone :
    let brief := alone .brief
    dispatch (Rules.withBudget {} (some 3)) .brief 0 4 0 brief =
        dispatch (Rules.withBudget {} none) .brief 0 9 0 brief ∧
      dispatch (Rules.withBudget {} (some 2)) .brief 0 4 0 brief =
        (after {} .brief 0 2 brief, .error (.fault (.budgetExceeded 0 2))) ∧
      dispatch (Rules.withBudget {} (some 5)) .restless 0 9 0 (alone .restless) =
        (after {} .restless 0 5 (alone .restless), .error (.fault (.budgetExceeded 0 5))) := by
  intro brief
  have hstops : (dispatch (Rules.withBudget {} none) .brief 0 9 0 brief).2 ≠
    .error .outOfFuel := by decide +kernel
  have hlength : (dispatchTurns (Rules.withBudget {} none) .brief 0 9 0 brief).length = 3 := by
    decide +kernel
  have hfour := budget_transparent {} .brief 0 brief 3 (by decide : 3 < 4)
  have htwo := budget_transparent {} .brief 0 brief 2 (by decide : 2 < 4)
  have hfive := budget_transparent {} .restless 0 (alone .restless) 5 (by decide : 5 < 9)
  exact ⟨(hfour.2.2.2.1 9 hstops).1 (Nat.le_of_eq hlength),
    (htwo.2.2.2.1 9 hstops).2 (Nat.lt_of_lt_of_eq (by decide) hlength.symm),
    hfive.2.2.2.2 fun enough => dispatch_restless enough 0⟩

end Machine

end RoomScript
