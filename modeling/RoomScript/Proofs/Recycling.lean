import RoomScript.Proofs.Relocation

/-!
# Threads that are used again

Starting a thread resets the counters of its outermost level. The deeper levels, the ends of if
blocks, the loop frames and the return addresses stay as whatever ran on the thread before has left
them. None of this can be observed: a script that is started on a thread runs as it would on any
other thread with the same id and the same selection.

This is the case of code that is moved by nothing. Two threads that were started alike are related
by `Thread.MovedWith`, which asks for nothing in a slot that was not written since, and any other
thread is related to itself.

**Main statements.** `Machine.Moved.of_start`: starting a thread makes two machines alike that
differ only in that thread. `Engine.recycled_thread_forgets`: from then on they cannot be told
apart.
-/

namespace RoomScript

/-! ### Moving by nothing -/

theorem Stop.moved_zero (stop : Stop) : stop.moved 0 = stop := by
  cases stop with
  | fault cause => rw [Stop.moved, Fault.moved_zero]
  | outOfFuel => rfl

theorem Request.moved_zero {α : Type} (r : Request) (answer : Except Stop α) :
    r.moved 0 answer = answer := by
  cases r with
  | start thread entry => rfl
  | inject raw => rfl
  | pass fuel =>
    cases answer with
    | ok a => rfl
    | error stop => exact congrArg Except.error stop.moved_zero

namespace Engine

variable {n : Nat} {σ : Type} [Host σ]

theorem zipWith_moved_zero (e : Engine n σ) (script : Script) (requests : List Request) :
    requests.zipWith (Request.moved 0) (e.answers script requests) = e.answers script requests := by
  induction requests generalizing e with
  | nil => rfl
  | cons r rs ih =>
    simp only [answers, List.zipWith_cons_cons, Request.moved_zero]
    rw [ih]

end Engine

/-! ### Starting a thread -/

/-- Not moved at all, threads that were never started are linked as well. -/
theorem Thread.Alike.linked_zero {s : Script} {t t' : Thread} (h : Alike s 0 t t') :
    Linked s 0 t t' := by
  rcases h with h | ⟨rfl, -⟩
  · exact h
  · exact .inl (.refl t')

/-- **Starting a thread makes two machines alike that differ only in that thread**, as long as it
has the same id and the same selection in both. -/
theorem Machine.Moved.of_start {n : Nat} {σ : Type} {m m' : Machine n σ} {script : Script}
    (hhost : m'.host = m.host) {k : Fin n}
    (hothers : ∀ j ≠ k, m'.pool.thread j = m.pool.thread j)
    (hid : (m'.pool.thread k).id = (m.pool.thread k).id)
    (hwork : (m'.pool.thread k).workSet = (m.pool.thread k).workSet) (rules : Rules) {entry : Nat}
    (hok : (m.start rules script k entry).2 = .ok ()) :
    Moved script 0 (m.start rules script k entry).1 (m'.start rules script k entry).1 ∧
      (m'.start rules script k entry).2 = .ok () := by
  unfold start at hok ⊢
  cases hentry : script.entry entry with
  | error f =>
    rw [hentry] at hok
    exact nomatch hok
  | ok address =>
    simp only [k.isLt, dite_true]
    -- what else there was in the thread is out of use once it is started
    have hstarted : Thread.Alike script 0 ((m.pool.thread k).activate address)
        ((m'.pool.thread k).activate address) := .inl (.inl (.inl (.activate hid hwork rfl)))
    have hrest : ∀ j, j ≠ k → Thread.Alike script 0 (m.pool.thread j) (m'.pool.thread j) := by
      intro j hj
      rw [hothers j hj]
      exact .inl (.inl (.refl _))
    exact ⟨⟨hhost, Pool.rel_replace hrest hstarted⟩, trivial⟩

/-- **A thread that is used again forgets what it was used for.** Take two engines that differ in
one thread only, which has the same id and the same selection in both, and start a script on that
thread. If this succeeds with one of them it does with the other, and from then on they answer every
request the same, they write the same to the host in the same order, and their threads are running
in the same live state. -/
theorem Engine.recycled_thread_forgets {n : Nat} {σ : Type} [Host σ] {e e' : Engine n (Journal σ)}
    {script : Script} (hsleeps : script.SleepsInPlace)
    (hstd : e.rules.handlers = Handler.standard) (hrules : e'.rules = e.rules)
    (hhost : e'.machine.host = e.machine.host) {k : Fin n}
    (hothers : ∀ j ≠ k, e'.machine.pool.thread j = e.machine.pool.thread j)
    (hid : (e'.machine.pool.thread k).id = (e.machine.pool.thread k).id)
    (hwork : (e'.machine.pool.thread k).workSet = (e.machine.pool.thread k).workSet) {entry : Nat}
    (hok : e.answer script (.start k entry) = .ok none) :
    e'.answer script (.start k entry) = .ok none ∧
      ∀ requests : List Request,
        let one := e.call (.start script k entry)
        let two := e'.call (.start script k entry)
        two.answers script requests = one.answers script requests ∧
          (two.serve script requests).machine.host = (one.serve script requests).machine.host ∧
          ∀ j, let t := (one.serve script requests).machine.pool.thread j
            let t' := (two.serve script requests).machine.pool.thread j
            t'.running = t.running ∧ t.Relocated 0 t' := by
  have hstart : (e.machine.start e.rules script k entry).2 = .ok () := by
    simp only [answer] at hok
    rcases hres : (e.machine.start e.rules script k entry).2 with f | ⟨⟩
    · rw [hres] at hok
      cases hok
    · rfl
  obtain ⟨hmoved, hstart'⟩ := Machine.Moved.of_start hhost hothers hid hwork e.rules hstart
  refine ⟨by simp only [answer, hrules, hstart']; rfl, ?_⟩
  intro requests one two
  have hmachine : one.machine.Moved script 0 two.machine := by
    simp only [one, two, call, hrules]
    exact hmoved
  have hrules' : two.rules = one.rules := by rw [rules_call, rules_call, hrules]
  -- two engines that are alike are the case of code that is moved by nothing
  obtain ⟨hserved, hanswers⟩ := answers_moved (.refl script) hsleeps hrules'
    (by rw [rules_call]; exact hstd) hmachine requests
  rw [zipWith_moved_zero] at hanswers
  refine ⟨hanswers, hserved.host, fun j => ?_⟩
  have hlinked := (hserved.pool j).linked_zero
  exact ⟨hlinked.running, hlinked.relocated⟩

/-- A thread that was left in the middle of everything. -/
def Thread.worn : Thread where
  id := 0
  running := true
  pc := 77
  sub := ⟨3, by decide⟩
  stackIndex := 9
  overridden := true
  levels := .replicate _
    { ifCounter := 8
      stack := .replicate _ 5
      returnTo := 99
      loopLevel := 7
      frames := .replicate _ { counter := 3, breakTo := 7, body := 7, ifCounter := 12 } }

/-- A sleep needs a loop frame, and finds one although all of them were in use. -/
theorem Engine.recycled_thread_forgets_worn :
    let e := Engine.ofConfig {} {} ({ host := {} } : Journal Stage)
    let pool := e.machine.pool.replace ⟨0, by decide⟩ .worn
    let e' := { e with machine := { e.machine with pool := pool } }
    (e'.call (.start .nap 0 0)).answers .nap [.pass 9, .pass 9, .pass 9] =
      [.ok none, .ok none, .error (.fault (.pcOutOfRange 4 4))] := by
  intro e pool e'
  have hsleeps : Script.nap.SleepsInPlace := by decide
  have hstd : e.rules.handlers = Handler.standard := rfl
  have hrules : e'.rules = e.rules := rfl
  have hhost : e'.machine.host = e.machine.host := rfl
  have hothers : ∀ j ≠ ⟨0, by decide⟩, e'.machine.pool.thread j = e.machine.pool.thread j :=
    fun j hj => Pool.thread_replace_of_ne _ _ hj
  have hid : (e'.machine.pool.thread ⟨0, by decide⟩).id =
      (e.machine.pool.thread ⟨0, by decide⟩).id := by decide +kernel
  have hwork : (e'.machine.pool.thread ⟨0, by decide⟩).workSet =
      (e.machine.pool.thread ⟨0, by decide⟩).workSet := by decide +kernel
  have hok : e.answer .nap (.start 0 0) = .ok none := by decide +kernel
  have hanswers : (e.call (.start .nap 0 0)).answers .nap [.pass 9, .pass 9, .pass 9] =
      [.ok none, .ok none, .error (.fault (.pcOutOfRange 4 4))] := by decide +kernel
  obtain ⟨-, hruns⟩ := recycled_thread_forgets hsleeps hstd hrules hhost hothers hid hwork hok
  exact (hruns _).1.trans hanswers

end RoomScript
