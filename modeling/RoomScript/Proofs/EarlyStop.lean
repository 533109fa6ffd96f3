import RoomScript.Headless
import RoomScript.Proofs.Dispatch
import RoomScript.Proofs.RoomLoad

/-!
# Headless runs end where nothing can happen

A headless run makes as many passes as it is given ticks, but looks at the pool after each one and
ends at once if every thread is idle. That this saves work and changes nothing is a statement about
two runs: the one that may end early and the plain one, which makes every pass it is given and stops
at nothing but a stop of a pass (`Machine.passes`).

The crux is that an idle pool stays as it is. A pass dispatches running threads only, so over an
idle pool it changes nothing, says nothing and cannot fault, and so do all the passes after it.
Where the early run has ended the plain one has nothing left to do. Before that point the two make
the same passes, which is why a stop has the same number in both.

A run that is given no ticks does not look at the pool. It ends with the threads of the room
running, so a report without running threads always comes from the early end, and more ticks give it
again.

**Main statements.** `Machine.passes_of_rests`: nothing changes once every thread is idle.
`Headless.ticksFrom_answers`: what the early run answers, told by the plain one.
`Headless.run_answers`: so for a whole headless run.
-/

namespace RoomScript

/-- No thread runs if and only if every place has an idle one. -/
theorem Pool.running_eq_nil_iff {n : Nat} {p : Pool n} :
    p.running = [] ↔ ∀ i, (p.thread i).running = false := by
  simp only [running, List.filter_eq_nil_iff, Vector.mem_toList_iff, Bool.not_eq_true]
  constructor
  · intro h i
    exact h _ (Vector.getElem_mem i.isLt)
  · intro h t ht
    obtain ⟨i, hi, rfl⟩ := Vector.getElem_of_mem ht
    exact h ⟨i, hi⟩

namespace Machine

variable {n : Nat} {σ : Type}

/-- Every thread is idle. -/
def Rests (m : Machine n σ) : Prop := m.pool.running = []

variable [Host σ]

/-- **Passes one after another**, with no other end than their number and the first pass that does
not come to its own, which is told by its place, counted from zero. -/
def passes (rules : Rules) (script : Script) (fuel : Nat) (m : Machine n σ) :
    Nat → Machine n σ × Except (Nat × Stop) Unit
  | 0 => (m, .ok ())
  | k + 1 =>
    match passes rules script fuel m k with
    | (m, .error stopped) => (m, .error stopped)
    | (m, .ok ()) =>
      match m.pass rules script fuel with
      | (m, .error stop) => (m, .error (k, stop))
      | (m, .ok ()) => (m, .ok ())

variable {rules : Rules} {script : Script} {fuel : Nat} {m m' : Machine n σ} {k : Nat}

/-- A pass over idle threads does nothing. -/
theorem Rests.pass (h : m.Rests) : m.pass rules script fuel = (m, .ok ()) :=
  runThreads_idle fuel fun i _ => Pool.running_eq_nil_iff.mp h i

theorem passes_succ (h : m.passes rules script fuel k = (m', .ok ())) :
    m.passes rules script fuel (k + 1) =
      match m'.pass rules script fuel with
      | (m, .error stop) => (m, .error (k, stop))
      | (m, .ok ()) => (m, .ok ()) := by
  rw [passes, h]

/-- No pass is made after one that has stopped. -/
theorem passes_of_stopped {stopped : Nat × Stop}
    (h : m.passes rules script fuel k = (m', .error stopped)) (more : Nat) :
    m.passes rules script fuel (k + more) = (m', .error stopped) := by
  induction more with
  | zero => exact h
  | succ more ih => rw [← Nat.add_assoc, passes, ih]

/-- **Nothing changes once every thread is idle**, however many passes are still made. -/
theorem passes_of_rests (h : m.passes rules script fuel k = (m', .ok ())) (hrests : m'.Rests)
    (more : Nat) : m.passes rules script fuel (k + more) = (m', .ok ()) := by
  induction more with
  | zero => exact h
  | succ more ih => rw [← Nat.add_assoc, passes_succ ih, hrests.pass]

end Machine

namespace Headless

variable {n : Nat}

/-- **The ticks of a run**, by the states it would be in after so many passes: the least number of
passes, one at least, after which every thread is idle, if there are so many ticks, and all the
ticks otherwise. -/
inductive Lasts (after : Nat → Machine n Stage) (ticks count : Nat) : Prop
  /-- Every thread is idle before the ticks are over. -/
  | early (hpos : 1 ≤ count) (hle : count ≤ ticks) (hrests : (after count).Rests)
      (hleast : ∀ k, 1 ≤ k → k < count → ¬ (after k).Rests)
  /-- There is a running thread after every tick. -/
  | full (hall : count = ticks) (hbusy : ∀ k, 1 ≤ k → k ≤ ticks → ¬ (after k).Rests)

/-- **What a run may answer** after so many ticks, by what plain passes come to: the number and the
cause of the pass that stops, and otherwise a report of where the passes end. -/
def Answers (plain : Nat → Machine n Stage × Except (Nat × Stop) Unit) (ticks : Nat) :
    Except RunError Report → Prop
  | .error (.atStart _) => False
  | .error (.atTick k stop) => (plain ticks).2 = .error (k, stop)
  | .ok r => (plain ticks).2 = .ok () ∧ r.stage = (plain ticks).1.host ∧
      r.running = (plain ticks).1.pool.running ∧ Lasts (fun k => (plain k).1) ticks r.ticks

variable {rules : Rules} {room : Script} {fuel : Nat} {m₀ m : Machine n Stage}

/-- **The early end is sound**: a run that has made some passes, with a running thread after each of
them, goes on to answer what the plain passes come to. -/
theorem ticksFrom_answers {left done : Nat} (hm : m₀.passes rules room fuel done = (m, .ok ()))
    (hbusy : ∀ k, 1 ≤ k → k ≤ done → ¬ (m₀.passes rules room fuel k).1.Rests) :
    Answers (m₀.passes rules room fuel) (done + left)
      (ticksFrom rules room fuel left done m).2 := by
  -- The induction is on the passes still to make; the plain run counts them from where it began.
  induction left generalizing done m with
  | zero =>
    rw [ticksFrom, Nat.add_zero]
    refine ⟨congrArg Prod.snd hm, ?_, ?_, .full rfl hbusy⟩ <;> rw [hm] <;> rfl
  | succ left ih =>
    have hnext := Machine.passes_succ hm
    have hsum : done + (left + 1) = done + 1 + left := by omega
    rw [ticksFrom, hsum]
    rcases hpass : m.pass rules room fuel with ⟨m', stop | ⟨⟩⟩ <;> rw [hpass] at hnext <;>
      simp only at hnext ⊢
    · -- A pass that stops is the last one of both.
      exact congrArg Prod.snd (Machine.passes_of_stopped hnext left)
    split
    · next hidle =>
      have hrests : m'.Rests := List.isEmpty_iff.mp hidle
      have hend := Machine.passes_of_rests hnext hrests left
      -- The plain run stands still from here on, and it has not stood still before.
      refine ⟨congrArg Prod.snd hend, ?_, ?_, .early ?_ ?_ ?_ ?_⟩
      · rw [hend]
        rfl
      · rw [hend]
        rfl
      · exact Nat.le_add_left 1 done
      · exact Nat.le_add_right (done + 1) left
      · show (m₀.passes rules room fuel (done + 1)).1.Rests
        rwa [hnext]
      · exact fun k hpos hlt => hbusy k hpos (Nat.le_of_lt_succ hlt)
    · next hruns =>
      refine ih hnext fun k hpos hk => ?_
      rcases Nat.le_succ_iff.mp hk with hle | rfl
      · exact hbusy k hpos hle
      · rw [hnext]
        exact fun hrests => hruns (List.isEmpty_iff.mpr hrests)

/-- A run that ends with every thread idle, and did not begin so, has ended early: more ticks make
no difference. -/
theorem ticksFrom_of_idle {left done : Nat} {r : Report} (hbegin : ¬ m.Rests)
    (h : (ticksFrom rules room fuel left done m).2 = .ok r) (hidle : r.running = []) (more : Nat) :
    ticksFrom rules room fuel (left + more) done m = ticksFrom rules room fuel left done m := by
  induction left generalizing done m with
  | zero =>
    -- Without a pass the report is of the beginning.
    cases h
    exact absurd hidle hbegin
  | succ left ih =>
    rw [Nat.add_right_comm, ticksFrom]
    rw [ticksFrom] at h ⊢
    rcases hpass : m.pass rules room fuel with ⟨m', stop | ⟨⟩⟩
    · rfl
    rw [hpass] at h
    simp only at h ⊢
    split
    · rfl
    · next hruns =>
      rw [if_neg hruns] at h
      exact ih (fun hrests => hruns (List.isEmpty_iff.mpr hrests)) h

/-- **A room is started with its first thread running**, with and without an initial script. -/
theorem not_rests_of_seed {init? : Option Script} {m' : Machine n Stage}
    (h : seed m rules init? room fuel = (m', .ok ())) : ¬ m'.Rests := by
  -- with or without an initial script, the first thread of the room has just been started
  have hfirst : ∃ (hlt : 0 < n) (address : Nat), (m'.pool.thread ⟨0, hlt⟩).Started address := by
    cases init? with
    | some init =>
      have hload : m.loadRoom rules init room fuel = (m', .ok ()) := h
      obtain ⟨hlt, address, -, hstarted⟩ :=
        (Machine.loadRoom_eq_ok (congrArg Prod.snd hload)).1 0 (.inl rfl)
      rw [hload] at hstarted
      exact ⟨hlt, address, hstarted⟩
    | none =>
      unfold seed at h
      rcases hroom : m.startRoom rules room [] with ⟨m₁, f | ⟨⟩⟩ <;> rw [hroom] at h <;> cases h
      obtain ⟨hlt, address, -, hstarted⟩ := (Machine.startRoom_eq_ok hroom).1 0 (.inl rfl)
      exact ⟨hlt, address, hstarted⟩
  obtain ⟨hlt, address, hstarted⟩ := hfirst
  intro hrests
  have hidle := Pool.running_eq_nil_iff.mp hrests ⟨0, hlt⟩
  rw [hstarted.running] at hidle
  cases hidle

/-- A run whose threads are started answers what its ticks come to. -/
theorem run_of_seed {config : Config} {traces : TraceSet} {init? : Option Script}
    {m : Machine config.threadCount Stage}
    (hseed : seed (Engine.ofConfig config traces ({} : Stage)).machine
      (Engine.ofConfig config traces ({} : Stage)).rules init? room fuel = (m, .ok ()))
    (ticks : Nat) :
    run config traces init? room ticks fuel =
      let last := ticksFrom (Engine.ofConfig config traces ({} : Stage)).rules room fuel ticks 0 m
      (last.1.log, last.2) := by
  simp only [run, hseed]

/-- The wording of a stop tells its tick. -/
theorem RunError.eq_of_head?_messages {k j : Nat} {stop : Stop}
    (h : (RunError.atTick k stop).messages.head? = some s!"tick {j}") : k = j := by
  have htext : "tick " ++ toString k = "tick " ++ toString j := by
    simpa [messages] using h
  -- The digits of a number can be read back.
  rw [String.append_right_inj, Nat.toString_eq_ofList_toDigits, Nat.toString_eq_ofList_toDigits,
    String.ofList_inj] at htext
  have hread := congrArg (Nat.ofDigitChars 10 · 0) htext
  simpa using hread

section Answers

variable {plain : Nat → Machine n Stage × Except (Nat × Stop) Unit} {ticks : Nat}
  {outcome : Except RunError Report}

theorem Answers.error_iff (h : Answers plain ticks outcome) (k : Nat) (stop : Stop) :
    outcome = .error (.atTick k stop) ↔ (plain ticks).2 = .error (k, stop) := by
  constructor
  · rintro rfl
    exact h
  · intro hplain
    rcases outcome with (_ | ⟨k', stop'⟩) | r
    · exact h.elim
    · cases hplain.symm.trans h
      rfl
    · cases hplain.symm.trans h.1

/-- A run names a tick in its message if and only if the pass of that number stops. -/
theorem Answers.names_tick_iff (h : Answers plain ticks outcome) (k : Nat) :
    (∃ error, outcome = .error error ∧ error.messages.head? = some s!"tick {k}") ↔
      ∃ stop, (plain ticks).2 = .error (k, stop) := by
  constructor
  · rintro ⟨error, rfl, htext⟩
    cases error with
    | atStart stop => exact h.elim
    | atTick k' stop =>
      rw [← RunError.eq_of_head?_messages htext]
      exact ⟨stop, h⟩
  · rintro ⟨stop, hstop⟩
    exact ⟨_, (h.error_iff k stop).mpr hstop, rfl⟩

theorem Answers.exists_report (h : Answers plain ticks outcome) (hok : (plain ticks).2 = .ok ()) :
    ∃ r, outcome = .ok r ∧ r.stage = (plain ticks).1.host ∧
      r.running = (plain ticks).1.pool.running ∧ Lasts (fun k => (plain k).1) ticks r.ticks := by
  rcases outcome with (_ | ⟨k, stop⟩) | r
  · exact h.elim
  · cases hok.symm.trans h
  · exact ⟨r, rfl, h.2⟩

end Answers

/-- **A headless run ends early where nothing is left to happen.** For every configuration, initial
script, room and number of ticks whose threads can be started, the run stops at a tick if and only
if the plain passes stop there, and for the same reason. Otherwise its session, its scene and the
threads it finds running are those that the plain passes end with, and its ticks are the least
number of passes, one at least, that leave every thread idle, or all it was given if they are not
enough. So a report with no running thread is the report of every longer run. -/
theorem run_answers (config : Config) (traces : TraceSet) (init? : Option Script) (room : Script)
    (fuel : Nat) :
    let e := Engine.ofConfig config traces ({} : Stage)
    ∀ m, seed e.machine e.rules init? room fuel = (m, .ok ()) →
      let plain := m.passes e.rules room fuel
      let early := fun ticks => run config traces init? room ticks fuel
      (∀ ticks k stop,
        (early ticks).2 = .error (.atTick k stop) ↔ (plain ticks).2 = .error (k, stop)) ∧
      (∀ ticks k,
        (∃ error, (early ticks).2 = .error error ∧ error.messages.head? = some s!"tick {k}") ↔
          ∃ stop, (plain ticks).2 = .error (k, stop)) ∧
      (∀ ticks, (plain ticks).2 = .ok () → ∃ r, (early ticks).2 = .ok r ∧
        r.stage = (plain ticks).1.host ∧ r.running = (plain ticks).1.pool.running ∧
        Lasts (fun k => (plain k).1) ticks r.ticks) ∧
      ∀ ticks r, (early ticks).2 = .ok r → r.running = [] →
        ∀ more, ticks ≤ more → early more = early ticks := by
  intro e m hseed plain early
  have hearly : ∀ ticks, early ticks =
      ((ticksFrom e.rules room fuel ticks 0 m).1.log, (ticksFrom e.rules room fuel ticks 0 m).2) :=
    run_of_seed hseed
  have hanswers : ∀ ticks, Answers plain ticks (early ticks).2 := by
    intro ticks
    have h : Answers plain (0 + ticks) (ticksFrom e.rules room fuel ticks 0 m).2 :=
      ticksFrom_answers rfl (by omega)
    rwa [Nat.zero_add, ← congrArg Prod.snd (hearly ticks)] at h
  refine ⟨fun ticks => (hanswers ticks).error_iff, fun ticks => (hanswers ticks).names_tick_iff,
    fun ticks => (hanswers ticks).exists_report, fun ticks r hr hidle more hmore => ?_⟩
  obtain ⟨extra, rfl⟩ := Nat.exists_eq_add_of_le hmore
  rw [hearly] at hr
  rw [hearly, hearly, ticksFrom_of_idle (not_rests_of_seed hseed) hr hidle]

end Headless

/-- Two threads: one sleeps for two ticks and changes the camera, the other one sets a variable. -/
def Script.resting : Script where
  data := #[0x09, 0x0a, 2, 0, 0x29, 4, 0x01, 0, 0x24, 1, 5, 0, 0x01, 0]
  entries := [0, 8]
  entries_lt := by decide

/-- The sleeping thread ends in the third pass, so three ticks are as good as any more. -/
theorem Headless.run_answers_resting :
    let e := Engine.ofConfig {} {} ({} : Stage)
    (seed e.machine e.rules none .resting 9).2 = .ok () ∧
      ((run {} {} none .resting 3 9).2.toOption.map fun r =>
        (r.ticks, r.running, r.stage.session.camera)) = some (3, [], 4) ∧
      ∀ ticks, 3 ≤ ticks → run {} {} none .resting ticks 9 = run {} {} none .resting 3 9 := by
  intro e
  have hseed : (seed e.machine e.rules none .resting 9).2 = .ok () := by decide +kernel
  have hreport : ((run {} {} none .resting 3 9).2.toOption.map fun r =>
      (r.ticks, r.running, r.stage.session.camera)) = some (3, [], 4) := by decide +kernel
  refine ⟨hseed, hreport, ?_⟩
  obtain ⟨r, hr, hfields⟩ := Option.map_eq_some_iff.mp hreport
  refine (run_answers {} {} none .resting 9 _ (Prod.ext rfl hseed)).2.2.2 3 r ?_ ?_
  · rcases hrun : (run {} {} none .resting 3 9).2 with error | r' <;> rw [hrun] at hr <;> cases hr
    rfl
  · exact congrArg (fun fields => fields.2.1) hfields

end RoomScript
