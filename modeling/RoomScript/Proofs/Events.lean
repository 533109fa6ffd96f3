import RoomScript.Proofs.Turns

/-!
# Who takes an event

An event is taken by the thread it names. If the pool has no such thread, the first idle one takes
it, and the first of all if none is idle. So who takes an event depends on which threads run and on
nothing else of them, and no other thread is touched.

This is the only way for an instruction to reach another thread than its own. A thread that is idle
when a pass begins is therefore found as it was when the pass is over, unless one of the
instructions on the way starts an event on it.

**Main statements.** `Control.taker?_congr`: who takes an event depends on who runs.
`Machine.turn_other`: what a turn does to another thread. `Machine.turn_frame`: a turn leaves a
thread alone that it does not summon. `Machine.pass_frame`: so does a pass, if the thread is idle.
-/

namespace RoomScript

open Payload

/-! ### Taking an event -/

section Taker

variable {n : Nat}

/-- Which thread is idle first depends on which ones run. -/
theorem Pool.firstIdle?_congr {p q : Pool n}
    (h : ∀ j, (q.thread j).running = (p.thread j).running) : q.firstIdle? = p.firstIdle? := by
  unfold firstIdle?
  simp only [h]

namespace Control

theorem taker?_congr {p q : Pool n} (h : ∀ j, (q.thread j).running = (p.thread j).running)
    (thread : UInt8) : taker? q thread = taker? p thread := by
  simp only [taker?, Pool.firstIdle?_congr h]

end Control

end Taker

/-! ### Threads that no event is started on -/

namespace Machine

variable {n : Nat} {σ : Type}

/-- The thread whose turn it is stands before an instruction that starts an event on thread `j`. -/
def Summons (m : Machine n σ) (script : Script) (i j : Fin n) : Prop :=
  ∃ raw p, script.fetch (m.pool.thread i).pc = .ok (.evtExec, raw) ∧
    decode EvtExec raw = .ok p ∧ Control.taker? m.pool p.thread = some j

/-- Getting a thread ready for an instruction does not change who runs. -/
theorem running_ready (pool : Pool n) (i j : Fin n) :
    ((pool.modify i Thread.ready).thread j).running = (pool.thread j).running := by
  by_cases hj : j = i
  · subst hj
    rw [Pool.thread_modify]
    rfl
  · rw [Pool.thread_modify_of_ne _ _ hj]

variable [Host σ] {rules : Rules} {script : Script} {i j : Fin n} {op : Opcode} {raw : Bytes}

/-- A turn that starts an event in terms of what scheduling the event comes to. -/
theorem turn_scheduled (hstd : rules.handlers = Handler.standard) (m : Machine n σ)
    (script : Script) (i : Fin n) {p : EvtExec} (hp : decode EvtExec raw = .ok p) :
    match (Control.schedule script (m.pool.modify i Thread.ready) p).result with
    | .ok (_, pool) =>
      (m.turn rules script i .evtExec raw).1.pool = pool.modify i (·.moveOn Opcode.evtExec.size) ∧
        (m.turn rules script i .evtExec raw).2 = .ok .running
    | .error f =>
      (m.turn rules script i .evtExec raw).1.pool = m.pool.modify i Thread.ready ∧
        (m.turn rules script i .evtExec raw).2 = .error f := by
  have hrun : m.reaction rules script i .evtExec raw = Control.evtExec (m.site script i) p :=
    m.reaction_of_decode script i (congrFun hstd .evtExec) hp
  obtain ⟨-, herr, hok⟩ := m.turn_eq rules script i .evtExec raw hrun
  have heq := (Control.evtExec_eq (m.site script i) p).2
  change match (Control.schedule script (m.pool.modify i Thread.ready) p).result with
    | .ok (_, pool) => _
    | .error f => _ at heq
  -- what the handler does with the pool is what the schedule makes of it
  rcases hs : (Control.schedule script (m.pool.modify i Thread.ready) p).result with f | ⟨j, pool⟩
  · rw [hs] at heq
    obtain ⟨hpool, hresult⟩ := herr f heq.2
    exact ⟨hpool.trans heq.1, hresult⟩
  · rw [hs] at heq
    obtain ⟨hpool, hresult⟩ := hok .next heq.2
    rw [heq.1] at hpool
    exact ⟨hpool, hresult⟩

/-- **A turn that starts an event**: the thread that takes it starts at the entry point, and the one
whose turn it is steps over the instruction. -/
theorem turn_starts (hstd : rules.handlers = Handler.standard) {m : Machine n σ} {p : EvtExec}
    (hp : decode EvtExec raw = .ok p) {address : Nat}
    (he : script.entry p.event.toNat = .ok address)
    (ht : Control.taker? m.pool p.thread = some j) :
    (m.turn rules script i .evtExec raw).1.pool =
        ((m.pool.modify i Thread.ready).modify j (·.activate address)).modify i
          (·.moveOn Opcode.evtExec.size) ∧
      (m.turn rules script i .evtExec raw).2 = .ok .running := by
  have hturn := turn_scheduled hstd m script i hp
  rw [Control.schedule_result, he, Control.taker?_congr (running_ready m.pool i), ht] at hturn
  exact hturn

/-- **What the instruction that starts an event can do**: some thread takes the event, or it faults
and changes nothing. -/
theorem turn_evtExec_cases (hstd : rules.handlers = Handler.standard) (m : Machine n σ)
    (script : Script) (i : Fin n) {p : EvtExec} (hp : decode EvtExec raw = .ok p) :
    (∃ k address, Control.taker? m.pool p.thread = some k ∧
      script.entry p.event.toNat = .ok address ∧
      (m.turn rules script i .evtExec raw).1.pool =
        ((m.pool.modify i Thread.ready).modify k (·.activate address)).modify i
          (·.moveOn Opcode.evtExec.size)) ∨
      (m.turn rules script i .evtExec raw).1.pool = m.pool.modify i Thread.ready := by
  cases he : script.entry p.event.toNat with
  | error f =>
    have hturn := turn_scheduled hstd m script i hp
    rw [Control.schedule_result, he] at hturn
    exact .inr hturn.1
  | ok address =>
    cases ht : Control.taker? m.pool p.thread with
    | some k => exact .inl ⟨k, address, rfl, rfl, (turn_starts hstd hp he ht).1⟩
    | none =>
      have hturn := turn_scheduled hstd m script i hp
      rw [Control.schedule_result, he, Control.taker?_congr (running_ready m.pool i), ht] at hturn
      exact .inr hturn.1

/-- **What a turn does to another thread**: nothing, unless it starts an event on it. -/
theorem turn_other (hstd : rules.handlers = Handler.standard) {m : Machine n σ}
    (hf : script.fetch (m.pool.thread i).pc = .ok (op, raw)) (hj : j ≠ i) :
    (m.turn rules script i op raw).1.pool.thread j = m.pool.thread j ∨
      ∃ p address, op = .evtExec ∧ decode EvtExec raw = .ok p ∧
        Control.taker? m.pool p.thread = some j ∧ script.entry p.event.toNat = .ok address ∧
        (m.turn rules script i op raw).1.pool.thread j = (m.pool.thread j).activate address := by
  have hw := Script.whole_of_fetch hf
  by_cases hop : op = .evtExec
  · subst hop
    obtain ⟨p, hp⟩ := hw.decode (α := EvtExec) (by decide)
    have hready : (m.pool.modify i Thread.ready).thread j = m.pool.thread j :=
      Pool.thread_modify_of_ne _ _ hj
    rcases turn_evtExec_cases hstd m script i hp with ⟨k, address, ht, he, hpool⟩ | hpool
    · rw [hpool, Pool.thread_modify_of_ne _ _ hj]
      by_cases hk : j = k
      · subst hk
        refine .inr ⟨p, address, rfl, hp, ht, he, ?_⟩
        rw [Pool.thread_modify, hready]
      · exact .inl (by rw [Pool.thread_modify_of_ne _ _ hk, hready])
    · exact .inl (by rw [hpool, hready])
  · obtain ⟨t, hpool, -⟩ := m.turn_local script i hstd hw hop
    exact .inl (by rw [hpool, Pool.thread_replace_of_ne _ _ hj])

/-- **A turn leaves the other threads alone**, except for the one it starts an event on. -/
theorem turn_frame (hstd : rules.handlers = Handler.standard) {m : Machine n σ}
    (hf : script.fetch (m.pool.thread i).pc = .ok (op, raw)) (hj : j ≠ i)
    (hquiet : ¬ m.Summons script i j) :
    (m.turn rules script i op raw).1.pool.thread j = m.pool.thread j := by
  rcases turn_other hstd hf hj with hsame | ⟨p, address, rfl, hp, ht, -⟩
  · exact hsame
  · exact absurd ⟨raw, p, hf, hp, ht⟩ hquiet

theorem Dispatched.frame (hstd : rules.handlers = Handler.standard) (hj : j ≠ i)
    {m m' : Machine n σ} {visits : List (Machine n σ)} {turns : List (Turn n σ)}
    {result : Except Stop Unit} (h : Dispatched rules script i m visits turns m' result)
    (hquiet : ∀ v ∈ visits, ¬ v.Summons script i j) :
    m'.pool.thread j = m.pool.thread j := by
  induction h with
  | outOfFuel | unread | overBudget => rfl
  | faults hf ht | yields hf ht =>
    have hturn := turn_frame hstd hf hj (hquiet _ List.mem_cons_self)
    rwa [ht] at hturn
  | goesOn hf ht _ ih =>
    obtain ⟨hhere, hlater⟩ := List.forall_mem_cons.mp hquiet
    have hturn := turn_frame hstd hf hj hhere
    rw [ht] at hturn
    exact (ih hlater).trans hturn

theorem runThread_frame (hstd : rules.handlers = Handler.standard) (hj : j ≠ i) {fuel : Nat}
    {m : Machine n σ}
    (hquiet : ∀ v ∈ dispatchVisits rules script i (fuelFor rules fuel) 0 m,
      ¬ v.Summons script i j) :
    (m.runThread rules script fuel i).1.pool.thread j = m.pool.thread j := by
  rw [thread_runThread_of_ne _ _ _ _ hj]
  exact (dispatch_dispatched rules script i (fuelFor rules fuel) 0 m).frame hstd hj hquiet

/-- **An idle thread that no event is started on stays as it is** while others are dispatched. -/
theorem Passed.frame (hstd : rules.handlers = Handler.standard) {fuel : Nat} {is : List (Fin n)}
    {m m' : Machine n σ} {ds : List (Fin n × Machine n σ)} {result : Except Stop Unit}
    (h : Passed rules script fuel is m ds m' result) (hidle : (m.pool.thread j).running = false)
    (hquiet : ∀ d ∈ ds, ∀ v ∈ dispatchVisits rules script d.1 (fuelFor rules fuel) 0 d.2,
      ¬ v.Summons script d.1 j) :
    m'.pool.thread j = m.pool.thread j := by
  -- the thread is idle, so it is never the one that is dispatched
  have hne : ∀ {m : Machine n σ} {i}, (m.pool.thread j).running = false →
      (m.pool.thread i).running = true → j ≠ i := by
    rintro m i hidle hrun rfl
    rw [hidle] at hrun
    cases hrun
  induction h with
  | done => rfl
  | skips _ _ ih => exact ih hidle hquiet
  | stops hrun hr =>
    have hthread := runThread_frame hstd (hne hidle hrun) (hquiet _ List.mem_cons_self)
    rwa [hr] at hthread
  | goesOn hrun hr _ ih =>
    obtain ⟨hhere, hlater⟩ := List.forall_mem_cons.mp hquiet
    have hthread := runThread_frame hstd (hne hidle hrun) hhere
    rw [hr] at hthread
    exact (ih (by rw [hthread]; exact hidle) hlater).trans hthread

theorem pass_frame (hstd : rules.handlers = Handler.standard) {fuel : Nat} {m : Machine n σ}
    (hidle : (m.pool.thread j).running = false)
    (hquiet : ∀ v ∈ m.visits rules script fuel, ¬ v.2.Summons script v.1 j) :
    (m.pass rules script fuel).1.pool.thread j = m.pool.thread j := by
  rw [visits_eq_flatMap] at hquiet
  refine (m.pass_passed rules script fuel).frame hstd hidle fun d hd v hv => ?_
  exact hquiet (d.1, v) (List.mem_flatMap.mpr ⟨d, hd, List.mem_map_of_mem hv⟩)

end Machine

end RoomScript
