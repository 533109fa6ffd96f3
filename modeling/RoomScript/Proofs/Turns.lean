import RoomScript.Proofs.Run

/-!
# The course of a pass

A pass is made of dispatches and a dispatch of turns. This file gives both as lists, next to the
moments of `Machine.visits`, and says once and for all in which ways a dispatch and a pass can go.
`Machine.Dispatched` has one rule for each end that a round of the dispatcher can come to, with
everything it has looked at by then, and `Machine.Passed` one for each thread that is come by. What
is to be known about passes is then an induction on these rules, and the fuel and the budget are
not looked at again.

**Main statements.** `Machine.dispatch_dispatched` and `Machine.pass_passed`: what the machine does
follows the rules. `Machine.runThread_eq`: a dispatch that ends in a fault makes its thread idle,
and nothing else comes on top of it. `Machine.pass_stoppedBy`: a pass that ends in a fault has
stopped a thread for it. `Machine.pairwise_dispatches`: a pass comes by each thread once, in order.
-/

namespace RoomScript

/-! ### Dispatches and the instructions they execute -/

/-- An instruction that is executed: the script it stands in, the thread whose turn it is, and the
machine it finds. -/
structure Machine.Turn (n : Nat) (σ : Type) where
  script : Script
  thread : Fin n
  machine : Machine n σ
  op : Opcode
  raw : Bytes

namespace Machine

variable {n : Nat} {σ : Type} [Host σ]

/-- The instructions that a dispatch executes. One that cannot be fetched is not executed, and
neither is one beyond the budget. -/
def dispatchTurns (rules : Rules) (script : Script) (i : Fin n) :
    (fuel executed : Nat) → Machine n σ → List (Turn n σ)
  | 0, _, _ => []
  | fuel + 1, executed, m =>
    match script.fetch (m.pool.thread i).pc with
    | .error _ => []
    | .ok (op, raw) =>
      match overBudget? rules i executed with
      | some _ => []
      | none =>
        ⟨script, i, m, op, raw⟩ ::
          match m.turn rules script i op raw with
          | (m, .ok .running) => dispatchTurns rules script i fuel (executed + 1) m
          | _ => []

/-- **The instructions a thread executes when it is dispatched.** -/
def turns (m : Machine n σ) (rules : Rules) (script : Script) (fuel : Nat) (i : Fin n) :
    List (Turn n σ) :=
  dispatchTurns rules script i (fuelFor rules fuel) 0 m

/-- The threads that are dispatched among given ones, each with the machine it finds. -/
def threadDispatches (rules : Rules) (script : Script) (fuel : Nat) :
    List (Fin n) → Machine n σ → List (Fin n × Machine n σ)
  | [], _ => []
  | i :: rest, m =>
    if (m.pool.thread i).running then
      (i, m) ::
        match m.runThread rules script fuel i with
        | (m, .ok ()) => threadDispatches rules script fuel rest m
        | _ => []
    else threadDispatches rules script fuel rest m

/-- **The dispatches of a pass**, in order: which thread, and the machine it finds. -/
def dispatches (m : Machine n σ) (rules : Rules) (script : Script) (fuel : Nat) :
    List (Fin n × Machine n σ) :=
  threadDispatches rules script fuel (List.finRange n) m

/-! ### The ways a dispatch can go -/

/-- **How a dispatch goes from one machine to another**: the machines it stands in, each before an
instruction is fetched, the instructions it executes, and how it comes out. -/
inductive Dispatched (rules : Rules) (script : Script) (i : Fin n) :
    Machine n σ → List (Machine n σ) → List (Turn n σ) → Machine n σ → Except Stop Unit → Prop
  | outOfFuel {m} : Dispatched rules script i m [] [] m (.error .outOfFuel)
  -- the instruction is not executed
  | unread {m f} (hf : script.fetch (m.pool.thread i).pc = .error f) :
    Dispatched rules script i m [m] [] m (.error (.fault f))
  | overBudget {m op raw f executed} (hf : script.fetch (m.pool.thread i).pc = .ok (op, raw))
      (hb : overBudget? rules i executed = some f) :
    Dispatched rules script i m [m] [] m (.error (.fault f))
  -- the instruction is executed
  | faults {m m' op raw f} (hf : script.fetch (m.pool.thread i).pc = .ok (op, raw))
      (ht : m.turn rules script i op raw = (m', .error f)) :
    Dispatched rules script i m [m] [⟨script, i, m, op, raw⟩] m' (.error (.fault f))
  | yields {m m' op raw} (hf : script.fetch (m.pool.thread i).pc = .ok (op, raw))
      (ht : m.turn rules script i op raw = (m', .ok .yielded)) :
    Dispatched rules script i m [m] [⟨script, i, m, op, raw⟩] m' (.ok ())
  | goesOn {m m' m'' op raw visits turns result}
      (hf : script.fetch (m.pool.thread i).pc = .ok (op, raw))
      (ht : m.turn rules script i op raw = (m', .ok .running))
      (h : Dispatched rules script i m' visits turns m'' result) :
    Dispatched rules script i m (m :: visits) (⟨script, i, m, op, raw⟩ :: turns) m'' result

/-- The dispatcher follows the rules. -/
theorem dispatch_dispatched (rules : Rules) (script : Script) (i : Fin n) (fuel executed : Nat)
    (m : Machine n σ) :
    Dispatched rules script i m (dispatchVisits rules script i fuel executed m)
      (dispatchTurns rules script i fuel executed m)
      (dispatch rules script i fuel executed m).1 (dispatch rules script i fuel executed m).2 := by
  -- one round of the dispatcher is one rule
  induction fuel generalizing executed m with
  | zero => exact .outOfFuel
  | succ fuel ih =>
    simp only [dispatchVisits, dispatchTurns, dispatch]
    cases hf : script.fetch (m.pool.thread i).pc with
    | error f => exact .unread hf
    | ok fetched =>
      cases hb : overBudget? rules i executed with
      | some f => exact .overBudget hf hb
      | none =>
        simp only
        rcases ht : m.turn rules script i fetched.1 fetched.2 with ⟨m', f | _ | _⟩
        · exact .faults hf ht
        · exact .goesOn hf ht (ih (executed + 1) m')
        · exact .yields hf ht

/-- What is executed was fetched at one of the moments of the dispatch. -/
theorem Dispatched.of_mem {rules : Rules} {script : Script} {i : Fin n} {m m' : Machine n σ}
    {visits : List (Machine n σ)} {turns : List (Turn n σ)} {result : Except Stop Unit}
    (h : Dispatched rules script i m visits turns m' result) {t : Turn n σ} (ht : t ∈ turns) :
    t.script = script ∧ t.thread = i ∧ t.machine ∈ visits ∧
      script.fetch (t.machine.pool.thread i).pc = .ok (t.op, t.raw) := by
  induction h with
  | outOfFuel | unread | overBudget => exact nomatch ht
  | faults hf | yields hf =>
    obtain rfl := List.mem_singleton.mp ht
    exact ⟨rfl, rfl, List.mem_cons_self, hf⟩
  | goesOn hf _ _ ih =>
    rcases List.mem_cons.mp ht with rfl | ht
    · exact ⟨rfl, rfl, List.mem_cons_self, hf⟩
    · obtain ⟨hscript, hthread, hvisit, hfetch⟩ := ih ht
      exact ⟨hscript, hthread, List.mem_cons_of_mem _ hvisit, hfetch⟩

/-- What a dispatch comes to: a fault makes the thread idle. -/
theorem runThread_eq (m : Machine n σ) (rules : Rules) (script : Script) (fuel : Nat) (i : Fin n) :
    let d := dispatch rules script i (fuelFor rules fuel) 0 m
    (m.runThread rules script fuel i).2 = d.2 ∧
      (m.runThread rules script fuel i).1.host = d.1.host ∧
      (m.runThread rules script fuel i).1.pool =
        match d.2 with
        | .error (.fault _) => d.1.pool.modify i Thread.halt
        | _ => d.1.pool := by
  unfold runThread
  rcases dispatch rules script i (fuelFor rules fuel) 0 m with ⟨m', (f | _) | _⟩ <;>
    exact ⟨rfl, rfl, rfl⟩

/-- The other threads are as the turns of the dispatch leave them. -/
theorem thread_runThread_of_ne (m : Machine n σ) (rules : Rules) (script : Script) (fuel : Nat)
    {i j : Fin n} (hj : j ≠ i) :
    (m.runThread rules script fuel i).1.pool.thread j =
      (dispatch rules script i (fuelFor rules fuel) 0 m).1.pool.thread j := by
  rw [(m.runThread_eq rules script fuel i).2.2]
  split
  · rw [Pool.thread_modify_of_ne _ _ hj]
  · rfl

/-! ### The ways a pass can go -/

/-- **How dispatching some threads goes from one machine to another**: the dispatches on the way,
and how it comes out. -/
inductive Passed (rules : Rules) (script : Script) (fuel : Nat) :
    List (Fin n) → Machine n σ → List (Fin n × Machine n σ) → Machine n σ → Except Stop Unit → Prop
  | done {m} : Passed rules script fuel [] m [] m (.ok ())
  | skips {i is m ds m' result} (hidle : (m.pool.thread i).running = false)
      (h : Passed rules script fuel is m ds m' result) :
    Passed rules script fuel (i :: is) m ds m' result
  | stops {i is m m' stop} (hrun : (m.pool.thread i).running = true)
      (hr : m.runThread rules script fuel i = (m', .error stop)) :
    Passed rules script fuel (i :: is) m [(i, m)] m' (.error stop)
  | goesOn {i is m m' ds m'' result} (hrun : (m.pool.thread i).running = true)
      (hr : m.runThread rules script fuel i = (m', .ok ()))
      (h : Passed rules script fuel is m' ds m'' result) :
    Passed rules script fuel (i :: is) m ((i, m) :: ds) m'' result

theorem runThreads_passed (rules : Rules) (script : Script) (fuel : Nat) (is : List (Fin n))
    (m : Machine n σ) :
    Passed rules script fuel is m (threadDispatches rules script fuel is m)
      (runThreads rules script fuel is m).1 (runThreads rules script fuel is m).2 := by
  induction is generalizing m with
  | nil => exact .done
  | cons i is ih =>
    simp only [threadDispatches, runThreads]
    by_cases hrun : (m.pool.thread i).running = true
    · simp only [if_pos hrun]
      rcases hr : m.runThread rules script fuel i with ⟨m', stop | ⟨⟩⟩
      · exact .stops hrun hr
      · exact .goesOn hrun hr (ih m')
    · simp only [if_neg hrun]
      exact .skips (by simpa using hrun) (ih m)

/-- A pass follows the rules. -/
theorem pass_passed (m : Machine n σ) (rules : Rules) (script : Script) (fuel : Nat) :
    Passed rules script fuel (List.finRange n) m (m.dispatches rules script fuel)
      (m.pass rules script fuel).1 (m.pass rules script fuel).2 :=
  runThreads_passed rules script fuel _ m

/-- The moments of a pass are those of its dispatches. -/
theorem visits_eq_flatMap (m : Machine n σ) (rules : Rules) (script : Script) (fuel : Nat) :
    m.visits rules script fuel = (m.dispatches rules script fuel).flatMap fun d =>
      (dispatchVisits rules script d.1 (fuelFor rules fuel) 0 d.2).map (d.1, ·) := by
  have hthreads : ∀ (is : List (Fin n)) (m : Machine n σ), threadVisits rules script fuel is m =
      (threadDispatches rules script fuel is m).flatMap fun d =>
        (dispatchVisits rules script d.1 (fuelFor rules fuel) 0 d.2).map (d.1, ·) := by
    intro is
    induction is with
    | nil => exact fun m => rfl
    | cons i is ih =>
      intro m
      simp only [threadVisits, threadDispatches]
      split
      · rcases m.runThread rules script fuel i with ⟨m', stop | ⟨⟩⟩
        · rfl
        · simp only [ih, List.flatMap_cons]
      · exact ih m
  exact hthreads _ m

section Ends

variable {rules : Rules} {script : Script} {fuel : Nat} {m m' : Machine n σ}
  {result : Except Stop Unit}

/-- A dispatch that ends in a fault has come to its last moment: no instruction is executed there,
or it faults. -/
theorem Dispatched.of_fault {i : Fin n} {visits : List (Machine n σ)} {turns : List (Turn n σ)}
    (h : Dispatched rules script i m visits turns m' result) {f : Fault}
    (hresult : result = .error (.fault f)) :
    ∃ front v, visits = front ++ [v] ∧ v.StoppedBy rules script i f ∧
      (m' = v ∨ ∃ op raw, script.fetch (v.pool.thread i).pc = .ok (op, raw) ∧
        v.turn rules script i op raw = (m', .error f)) := by
  -- the moment it stops at is the last one, whatever it stops for
  induction h with
  | outOfFuel | yields => exact nomatch hresult
  | unread hf =>
    cases hresult
    exact ⟨[], _, rfl, .inl hf, .inl rfl⟩
  | overBudget hf hb =>
    cases hresult
    exact ⟨[], _, rfl, .inr (.inl ⟨_, hb⟩), .inl rfl⟩
  | faults hf ht =>
    cases hresult
    exact ⟨[], _, rfl, .inr (.inr ⟨_, _, hf, by rw [ht]⟩), .inr ⟨_, _, hf, ht⟩⟩
  | goesOn _ _ _ ih =>
    obtain ⟨front, v, rfl, hv⟩ := ih hresult
    exact ⟨_ :: front, v, rfl, hv⟩

variable {is : List (Fin n)} {ds : List (Fin n × Machine n σ)}

/-- A pass that stops has stopped at its last dispatch. -/
theorem Passed.of_error (h : Passed rules script fuel is m ds m' result) {stop : Stop}
    (hresult : result = .error stop) :
    ∃ front i v, ds = front ++ [(i, v)] ∧ v.runThread rules script fuel i = (m', .error stop) := by
  induction h with
  | done => exact nomatch hresult
  | skips _ _ ih => exact ih hresult
  | stops _ hr =>
    cases hresult
    exact ⟨[], _, _, rfl, hr⟩
  | goesOn _ _ _ ih =>
    obtain ⟨front, i, v, rfl, hr⟩ := ih hresult
    exact ⟨_ :: front, i, v, rfl, hr⟩

/-- **A pass that ends in a fault has stopped a thread for it** at one of its moments. -/
theorem pass_stoppedBy {f : Fault} (h : (m.pass rules script fuel).2 = .error (.fault f)) :
    ∃ v ∈ m.visits rules script fuel, v.2.StoppedBy rules script v.1 f := by
  obtain ⟨front, i, v, hds, hr⟩ := (m.pass_passed rules script fuel).of_error h
  have hresult := (v.runThread_eq rules script fuel i).1
  rw [hr] at hresult
  obtain ⟨earlier, last, hvisits, hstopped, -⟩ :=
    (dispatch_dispatched rules script i (fuelFor rules fuel) 0 v).of_fault hresult.symm
  refine ⟨(i, last), ?_, hstopped⟩
  rw [visits_eq_flatMap, hds, List.flatMap_append, List.flatMap_singleton, hvisits]
  simp

theorem Passed.sublist (h : Passed rules script fuel is m ds m' result) :
    (ds.map Prod.fst).Sublist is := by
  induction h with
  | done => exact .slnil
  | skips _ _ ih => exact ih.cons _
  | stops _ _ => exact (List.nil_sublist _).cons_cons _
  | goesOn _ _ _ ih => exact ih.cons_cons _

/-- **A thread is dispatched at most once in a pass**, and in the order of the pool. -/
theorem pairwise_dispatches (m : Machine n σ) (rules : Rules) (script : Script) (fuel : Nat) :
    ((m.dispatches rules script fuel).map Prod.fst).Pairwise (· < ·) :=
  (List.pairwise_lt_finRange n).sublist (m.pass_passed rules script fuel).sublist

end Ends

end Machine

end RoomScript
