import RoomScript.Proofs.ControlState
import RoomScript.Proofs.History
import RoomScript.Proofs.Levels

/-!
# Histories with who is running

A thread executes instructions only while it runs, and an instruction that faults makes its thread
idle before anything else happens. A `Machine.Path` does not show this, because within a dispatch
the thread is made idle only when the dispatch is over. A *trail* does: it goes turn by turn as a
path does, and says of every turn that the thread was running and what a fault has made of it.

A trail is read from the front, one happening after the other. So it can be taken apart at any
instruction of the history, and what a thread keeps in a history is shown by what it keeps in each
of its own turns.

**Main statements.** `Machine.Trail.split`: a trail taken apart at an instruction.
`Machine.Trail.keeps`: what the turns of a thread keep is kept for as long as the thread is not
activated. `Machine.Trail.not_fault`: a thread that is not activated in between executes nothing
after a fault. `Engine.trail_history`: the history of a run is a trail from its start to its end.
-/

namespace RoomScript

/-- What being made idle keeps holds of a thread that was left alone or made idle. -/
theorem Thread.holds_of_idled {P : Thread → Prop} (hhalt : ∀ t, P t → P t.halt)
    {t t' : Thread} (h : t' = t ∨ t' = t.halt) (ht : P t) : P t' := by
  rcases h with rfl | rfl
  · exact ht
  · exact hhalt t ht

namespace Machine

variable {n : Nat} {σ : Type} [Host σ]

/-- What comes of executing an instruction. -/
def Turn.outcome (t : Turn n σ) (rules : Rules) : Machine n σ × Except Fault Pulse :=
  t.machine.turn rules t.script t.thread t.op t.raw

/-- **The machine as it is found after an instruction.** The thread was running and stood on the
instruction; afterwards threads may have been made idle, and its own has been if it faulted. -/
structure Turn.Leaves (t : Turn n σ) (rules : Rules) (m : Machine n σ) : Prop where
  running : (t.machine.pool.thread t.thread).running = true
  fetched : t.script.fetch (t.machine.pool.thread t.thread).pc = .ok (t.op, t.raw)
  thread : ∀ j, m.pool.thread j = (t.outcome rules).1.pool.thread j ∨
    m.pool.thread j = ((t.outcome rules).1.pool.thread j).halt
  idle : ∀ f, (t.outcome rules).2 = .error f → (m.pool.thread t.thread).running = false

/-- **How a machine gets from one happening to the next**, with who is running. -/
inductive Trail (rules : Rules) : Machine n σ → List (Happening n σ) → Machine n σ → Prop
  | done {m} : Trail rules m [] m
  | quiet {m m₁ m' hs} (h : ∀ i, m₁.pool.thread i = m.pool.thread i ∨
      m₁.pool.thread i = (m.pool.thread i).halt) (rest : Trail rules m₁ hs m') : Trail rules m hs m'
  | starts {m m₁ m' hs} (i : Fin n) (address : Nat)
      (h : m₁.pool = m.pool.modify i (·.activate address)) (rest : Trail rules m₁ hs m') :
    Trail rules m (.starts i :: hs) m'
  | executes {t m₁ m' hs} (h : t.Leaves rules m₁) (rest : Trail rules m₁ hs m') :
    Trail rules t.machine (.executes t :: hs) m'

variable {rules : Rules}

/-- After an instruction that does not fault, the machine is what the turn has made of it. -/
theorem Turn.Leaves.of_ok {m m₁ m' : Machine n σ} {script : Script} {i : Fin n} {op : Opcode}
    {raw : Bytes} {pulse : Pulse} (hrun : (m.pool.thread i).running = true)
    (hf : script.fetch (m.pool.thread i).pc = .ok (op, raw))
    (ht : m.turn rules script i op raw = (m₁, .ok pulse)) (hpool : m'.pool = m₁.pool) :
    Turn.Leaves ⟨script, i, m, op, raw⟩ rules m' where
  running := hrun
  fetched := hf
  thread := fun j => .inl (by rw [hpool, outcome, ht])
  idle := fun f hfault => by
    rw [outcome, ht] at hfault
    exact nomatch hfault

/-- What a turn has done to the levels of its thread, if it was not there to start an event. -/
theorem Turn.Leaves.stepped (hstd : rules.handlers = Handler.standard) {t : Turn n σ}
    {m : Machine n σ} (h : t.Leaves rules m) (hop : t.op ≠ .evtExec) :
    (t.machine.pool.thread t.thread).Stepped t.op ((t.outcome rules).1.pool.thread t.thread)
      (t.outcome rules).2 :=
  turn_stepped hstd h.fetched fun _ hstarts => hop hstarts.1

namespace Trail

variable {m m' m'' : Machine n σ} {hs hs' : List (Happening n σ)}

theorem trans (h : Trail rules m hs m') (h' : Trail rules m' hs' m'') :
    Trail rules m (hs ++ hs') m'' := by
  induction h with
  | done => exact h'
  | quiet h _ ih => exact .quiet h (ih h')
  | starts i address h _ ih => exact .starts i address h (ih h')
  | executes h _ ih => exact .executes h (ih h')

/-- **A trail taken apart at an instruction.** -/
theorem split (h : Trail rules m hs m') {front back : List (Happening n σ)} {t : Turn n σ}
    (hsplit : hs = front ++ .executes t :: back) :
    Trail rules m front t.machine ∧ ∃ m₁, t.Leaves rules m₁ ∧ Trail rules m₁ back m' := by
  induction h generalizing front with
  | done => exact absurd hsplit (by simp)
  | quiet h _ ih =>
    obtain ⟨hfront, hback⟩ := ih hsplit
    exact ⟨.quiet h hfront, hback⟩
  | starts i address h _ ih =>
    cases front with
    | nil => exact nomatch (List.cons.inj hsplit).1
    | cons x front =>
      obtain ⟨rfl, rfl⟩ := List.cons.inj hsplit
      obtain ⟨hfront, hback⟩ := ih rfl
      exact ⟨.starts i address h hfront, hback⟩
  | executes h rest ih =>
    cases front with
    | nil =>
      cases hsplit
      exact ⟨.done, _, h, rest⟩
    | cons x front =>
      obtain ⟨rfl, rfl⟩ := List.cons.inj hsplit
      obtain ⟨hfront, hback⟩ := ih rfl
      exact ⟨.executes h hfront, hback⟩

/-- **What a thread keeps while it is not activated**: it is enough that it is kept by being made
idle, and by the turns of the thread itself. -/
theorem keeps (hstd : rules.handlers = Handler.standard) (h : Trail rules m hs m') {i : Fin n}
    {P : Thread → Prop} (hhalt : ∀ t, P t → P t.halt)
    (hturn : ∀ t, .executes t ∈ hs → t.thread = i → (t.machine.pool.thread i).running = true →
      (t.machine.pool.thread i).Stepped t.op ((t.outcome rules).1.pool.thread i)
        (t.outcome rules).2 →
      P (t.machine.pool.thread i) → P ((t.outcome rules).1.pool.thread i))
    (hquiet : ∀ x ∈ hs, ¬ x.Activates i) (hP : P (m.pool.thread i)) : P (m'.pool.thread i) := by
  induction h with
  | done => exact hP
  | quiet h _ ih => exact ih hturn hquiet (Thread.holds_of_idled hhalt (h i) hP)
  | starts j address h _ ih =>
    obtain ⟨hnot, hlater⟩ := List.forall_mem_cons.mp hquiet
    refine ih (fun t ht => hturn t (List.mem_cons_of_mem _ ht)) hlater ?_
    rwa [h, Pool.thread_modify_of_ne _ _ (Ne.symm hnot)]
  | @executes t _ _ _ h _ ih =>
    obtain ⟨hnot, hlater⟩ := List.forall_mem_cons.mp hquiet
    refine ih (fun t ht => hturn t (List.mem_cons_of_mem _ ht)) hlater ?_
    refine Thread.holds_of_idled hhalt (h.thread i) ?_
    by_cases hi : t.thread = i
    · subst hi
      refine hturn t List.mem_cons_self rfl h.running ?_ hP
      exact turn_stepped hstd h.fetched fun address hs => hnot ⟨address, hs⟩
    · -- another thread has its turn, and could only start this one
      rcases turn_starts_or_leaves hstd h.fetched (Ne.symm hi) with hsame | ⟨address, hs, -⟩
      · rw [Turn.outcome, hsame]
        exact hP
      · exact absurd ⟨address, hs⟩ hnot

/-- **A thread executes nothing after a fault** until it is activated again. -/
theorem not_fault (hstd : rules.handlers = Handler.standard)
    {past during future : List (Happening n σ)} {t u : Turn n σ}
    (h : Trail rules m (past ++ .executes t :: (during ++ .executes u :: future)) m')
    (hthread : u.thread = t.thread) (hquiet : ∀ x ∈ during, ¬ x.Activates t.thread) (f : Fault) :
    (t.outcome rules).2 ≠ .error f := by
  intro hfault
  obtain ⟨-, m₁, ht, hrest⟩ := h.split rfl
  obtain ⟨hduring, m₂, hu, -⟩ := hrest.split rfl
  -- after a fault the thread is idle, and only a start could make it run again
  have hidle : (u.machine.pool.thread t.thread).running = false := by
    refine hduring.keeps hstd (P := fun t => t.running = false) (fun _ _ => rfl) ?_ hquiet
      (ht.idle f hfault)
    intro v _ _ hrun _ hidle
    rw [hrun] at hidle
    exact nomatch hidle
  have hrun := hu.running
  rw [hthread, hidle] at hrun
  exact nomatch hrun

/-- Every thread stays in range along a trail. -/
theorem inRange (hstd : rules.handlers = Handler.standard) (h : Trail rules m hs m')
    (hm : ∀ j, (m.pool.thread j).InRange) : ∀ j, (m'.pool.thread j).InRange := by
  have hhalt : ∀ t : Thread, t.InRange → t.halt.InRange := fun t => .congr (.halt t)
  induction h with
  | done => exact hm
  | quiet h _ ih => exact ih fun j => Thread.holds_of_idled hhalt (h j) (hm j)
  | starts i address h _ ih =>
    refine ih fun j => ?_
    rw [h]
    exact Pool.forall_replace hm ((hm i).activate address) j
  | executes h _ ih =>
    exact ih fun j => Thread.holds_of_idled hhalt (h.thread j)
      ((Thread.inRange_invariant _).turn_pool hstd hm h.fetched j)

end Trail

/-! ### The history of a run is a trail -/

/-- A dispatch, up to where its thread is made idle if it has ended in a fault. -/
theorem Dispatched.trail (hstd : rules.handlers = Handler.standard) {script : Script} {i : Fin n}
    {m m' m'' : Machine n σ} {visits : List (Machine n σ)} {turns : List (Turn n σ)}
    {result : Except Stop Unit}
    (hend : m''.pool = match result with
      | .error (.fault _) => m'.pool.modify i Thread.halt
      | _ => m'.pool)
    (h : Dispatched rules script i m visits turns m' result)
    (hrun : (m.pool.thread i).running = true) :
    Trail rules m (turns.map .executes) m'' := by
  induction h with
  | outOfFuel => exact .quiet (fun j => .inl (by rw [hend])) .done
  -- stopped before the instruction was executed
  | unread _ | overBudget _ _ =>
    refine .quiet (fun j => ?_) .done
    rw [hend]
    exact Pool.thread_modify_halt _ i j
  | @faults m m' op raw f hf ht =>
    -- the dispatch is over with this turn, and its thread is made idle
    let t : Turn n σ := ⟨script, i, m, op, raw⟩
    have hout : t.outcome rules = (m', .error f) := ht
    refine .executes (t := t) ⟨hrun, hf, ?_, ?_⟩ .done
    · intro j
      rw [hout, hend]
      exact Pool.thread_modify_halt _ i j
    · intro f _
      change (m''.pool.thread i).running = false
      rw [hend, Pool.thread_modify]
      rfl
  | yields hf ht => exact .executes (.of_ok hrun hf ht hend) .done
  | goesOn hf ht _ ih =>
    have hstill := running_of_turn hstd hf hrun (by rw [ht])
    rw [ht] at hstill
    exact .executes (.of_ok hrun hf ht rfl) (ih hend hstill)

/-- What is known dispatch by dispatch is known turn by turn, with who is running. -/
theorem Course.trail (hstd : rules.handlers = Handler.standard) {m m' : Machine n σ}
    {hs : List (Happening n σ)} (h : Course rules m hs m') : Trail rules m hs m' := by
  induction h with
  | quiet h => exact .quiet h .done
  | starts i address h => exact .starts i address h .done
  | @dispatches m i script fuel hrun =>
    have hdispatched := dispatch_dispatched rules script i (fuelFor rules fuel) 0 m
    exact hdispatched.trail hstd (m.runThread_eq rules script fuel i).2.2 hrun
  | trans _ _ ih ih' => exact ih.trans ih'

end Machine

namespace Engine

/-- **The history of a run is a trail.** -/
theorem trail_history {n : Nat} {σ : Type} [Host σ] {e : Engine n σ}
    (hstd : e.rules.handlers = Handler.standard) (calls : List (Call σ)) :
    Machine.Trail e.rules e.machine (e.history calls) (e.run calls).machine :=
  (e.course_history calls).trail hstd

/-- Every instruction of a run finds all the threads in range. -/
theorem inRange_history {σ : Type} [Host σ] {config : Config} {traces : TraceSet} {host : σ}
    {e : Engine config.threadCount σ} (he : e = Engine.ofConfig config traces host)
    {calls : List (Call σ)} {past future : List (Happening config.threadCount σ)}
    {t : Machine.Turn config.threadCount σ}
    (hsplit : e.history calls = past ++ .executes t :: future) (j : Fin config.threadCount) :
    (t.machine.pool.thread j).InRange := by
  have hstd : e.rules.handlers = Handler.standard := by rw [he]; rfl
  have hidle : ∀ j, (e.machine.pool.thread j).InRange := by
    subst he
    exact ofConfig_invariant .idle config traces host
  exact ((trail_history hstd calls).split hsplit).1.inRange hstd hidle j

/-- **What an instruction of a dispatch finds**: its thread is running, in range, and stands on the
instruction. -/
theorem found_of_occasion {σ : Type} [Host σ] {config : Config} {traces : TraceSet} {host : σ}
    {e : Engine config.threadCount σ} (he : e = Engine.ofConfig config traces host)
    {calls : List (Call σ)} {past future : List (Occasion config.threadCount σ)}
    {d : Machine.Dispatch config.threadCount σ}
    (hsplit : e.occasions calls = past ++ .dispatches d :: future)
    {front back : List (Machine.Turn config.threadCount σ)}
    {t : Machine.Turn config.threadCount σ} (hturns : d.turns e.rules = front ++ t :: back) :
    (t.machine.pool.thread d.thread).running = true ∧
      (t.machine.pool.thread d.thread).InRange ∧
      d.script.fetch (t.machine.pool.thread d.thread).pc = .ok (t.op, t.raw) := by
  have hstd : e.rules.handlers = Handler.standard := by rw [he]; rfl
  -- the turns of a dispatch stand one after another in the history
  have hhist : e.history calls =
      (past.flatMap (Occasion.happenings e.rules) ++ front.map .executes) ++ .executes t ::
        (back.map .executes ++ future.flatMap (Occasion.happenings e.rules)) := by
    rw [history_eq, hsplit, List.flatMap_append, List.flatMap_cons]
    simp [Occasion.happenings, hturns]
  have hmem : t ∈ d.turns e.rules := by
    rw [hturns]
    exact List.mem_append_right _ List.mem_cons_self
  obtain ⟨-, hthread, -, hfetch⟩ := (Machine.dispatch_dispatched e.rules d.script d.thread
    (Machine.fuelFor e.rules d.fuel) 0 d.machine).of_mem hmem
  obtain ⟨-, _, hleaves, -⟩ := (trail_history hstd calls).split hhist
  have hrun := hleaves.running
  rw [hthread] at hrun
  exact ⟨hrun, inRange_history he hhist d.thread, hfetch⟩

end Engine

end RoomScript
