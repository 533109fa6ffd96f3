import RoomScript.Proofs.Run

/-!
# Where dispatching leads

What a thread does in one dispatch is a chain of turns. `Machine.Leads` says that the dispatcher
takes a thread in a host to another state of both, `Machine.Stops` that it comes to an end from
there; what the machine has had to say on the way is left out, and so are the other threads, which
stay as they are. Both count turns, so that they come with enough fuel.

One turn is known from what the handler of the instruction does to the thread. `Handler.Does` is
that, for a thread that may stand anywhere in any pool.

**Main statements.** `Machine.Leads.of_turn`, `Machine.Stops.of_halt` and `Machine.Stops.of_fault`:
what the handler does is what the dispatcher does. `Machine.pass_of_stops`: a pass with one running
thread comes to its end where the dispatcher does.
-/

namespace RoomScript

/-- The handler of an opcode makes this of a thread: the thread afterwards, the writes it asks for
and how it comes out, wherever the thread stands. -/
def Handler.Does (script : Script) (t : Thread) (view : Host.View) (op : Opcode) (raw : Bytes)
    (t' : Thread) (writes : List Write) (result : Except Fault Flow) : Prop :=
  ∀ ⦃n : Nat⦄ (site : Site n), site.script = script → site.thread = t →
    ((standard op).run site view raw).pool = site.replace t' ∧
      ((standard op).run site view raw).writes = writes ∧
      ((standard op).run site view raw).result = result

namespace Machine

variable {n : Nat} {σ : Type}

/-- A thread stands in a host, and the other threads are those of a pool. -/
structure Shows (pool : Pool n) (i : Fin n) (t : Thread) (host : σ) (m : Machine n σ) : Prop where
  pool_eq : m.pool = pool.replace i t
  host_eq : m.host = host

theorem Shows.thread {pool : Pool n} {i : Fin n} {t : Thread} {host : σ} {m : Machine n σ}
    (h : m.Shows pool i t host) : m.pool.thread i = t := by
  rw [h.pool_eq, Pool.thread_replace]

variable [Host σ]

/-- **The dispatcher takes a thread in a host to another thread in another host.** -/
def Leads (rules : Rules) (script : Script) (pool : Pool n) (i : Fin n) (t : Thread) (host : σ)
    (t' : Thread) (host' : σ) : Prop :=
  ∀ m : Machine n σ, m.Shows pool i t host → ∃ (m' : Machine n σ) (turns : Nat),
    m'.Shows pool i t' host' ∧ ∀ fuel executed,
      dispatch rules script i (fuel + turns) executed m =
        dispatch rules script i fuel (executed + turns) m'

/-- **The dispatcher comes to an end with a thread in a host**: the thread is done, or faults. -/
def Stops (rules : Rules) (script : Script) (pool : Pool n) (i : Fin n) (t : Thread) (host : σ)
    (host' : σ) (result : Except Fault Unit) : Prop :=
  ∀ m : Machine n σ, m.Shows pool i t host → ∃ (m' : Machine n σ) (t' : Thread) (turns : Nat),
    m'.Shows pool i t' host' ∧ (result = .ok () → t'.running = false) ∧ ∀ fuel executed,
      dispatch rules script i (fuel + turns) executed m = (m', result.mapError .fault)

section Chains

variable {rules : Rules} {script : Script} {pool : Pool n} {i : Fin n} {t t' t'' : Thread}
  {host host' host'' : σ} {result : Except Fault Unit}

theorem Leads.refl : Leads rules script pool i t host t host :=
  fun m hm => ⟨m, 0, hm, fun _ _ => rfl⟩

theorem Leads.trans (h : Leads rules script pool i t host t' host')
    (h' : Leads rules script pool i t' host' t'' host'') :
    Leads rules script pool i t host t'' host'' := by
  intro m hm
  obtain ⟨m', turns, hm', hd⟩ := h m hm
  obtain ⟨m'', turns', hm'', hd'⟩ := h' m' hm'
  refine ⟨m'', turns' + turns, hm'', fun fuel executed => ?_⟩
  rw [← Nat.add_assoc, hd, hd', Nat.add_assoc, Nat.add_comm turns]

theorem Leads.stops (h : Leads rules script pool i t host t' host')
    (h' : Stops rules script pool i t' host' host'' result) :
    Stops rules script pool i t host host'' result := by
  intro m hm
  obtain ⟨m', turns, hm', hd⟩ := h m hm
  obtain ⟨m'', u, turns', hm'', hu, hd'⟩ := h' m' hm'
  refine ⟨m'', u, turns' + turns, hm'', hu, fun fuel executed => ?_⟩
  rw [← Nat.add_assoc, hd, hd']

end Chains

/-! ### One turn -/

section Turns

variable {rules : Rules} {script : Script} {pool : Pool n} {i : Fin n} {t t₁ t' : Thread}
  {host : σ} {op : Opcode} {raw : Bytes} {writes : List Write} {flow : Flow}

/-- A turn of a thread, from what the handler does. -/
theorem turn_of_does {m : Machine n σ} {result : Except Fault Flow}
    (hstd : rules.handlers = Handler.standard) (hm : m.Shows pool i t host)
    (hd : Handler.Does script t.ready (Host.view host) op raw t₁ writes result) :
    let out := m.turn rules script i op raw
    out.1.host = Host.performAll host writes ∧
      (∀ f, result = .error f → out.1.pool = pool.replace i t₁ ∧ out.2 = .error f) ∧
      (∀ flow, result = .ok flow →
        out.1.pool = pool.replace i ((t₁.moveOn op.size).follow flow).1 ∧
          out.2 = ((t₁.moveOn op.size).follow flow).2) := by
  intro out
  have hsite : (m.site script i).thread = t.ready := by rw [thread_site, hm.thread]
  obtain ⟨hpool, hwrites, hresult⟩ := hd (m.site script i) rfl hsite
  have hreaction : m.reaction rules script i op raw =
      (Handler.standard op).run (m.site script i) (Host.view host) raw := by
    rw [reaction, hstd, hm.host_eq]
  rw [replace_site, hm.pool_eq, Pool.replace_replace] at hpool
  obtain ⟨hhost, herr, hok⟩ := m.turn_eq rules script i op raw hreaction
  rw [hwrites, hm.host_eq] at hhost
  rw [hpool, hresult] at herr hok
  -- the dispatcher moves on the thread that the handler has put in its place
  rw [Pool.thread_replace] at hok
  refine ⟨hhost, herr, fun flow hflow => ?_⟩
  obtain ⟨hp, hr⟩ := hok flow hflow
  rw [Pool.replace_replace] at hp
  exact ⟨hp, hr⟩

/-! Without a budget a dispatch is one turn after another. -/

section Succ

variable {m m' : Machine n σ} (hbudget : rules.budget = none)
  (hf : script.fetch (m.pool.thread i).pc = .ok (op, raw)) (fuel executed : Nat)

include hbudget hf

theorem dispatch_running (h : m.turn rules script i op raw = (m', .ok .running)) :
    dispatch rules script i (fuel + 1) executed m =
      dispatch rules script i fuel (executed + 1) m' := by
  simp only [dispatch, hf, overBudget?, hbudget, h]

theorem dispatch_yielded (h : m.turn rules script i op raw = (m', .ok .yielded)) :
    dispatch rules script i (fuel + 1) executed m = (m', .ok ()) := by
  simp only [dispatch, hf, overBudget?, hbudget, h]

theorem dispatch_fault {f : Fault} (h : m.turn rules script i op raw = (m', .error f)) :
    dispatch rules script i (fuel + 1) executed m = (m', .error (.fault f)) := by
  simp only [dispatch, hf, overBudget?, hbudget, h]

end Succ

/-- **The dispatcher goes on from an instruction as its handler says.** -/
theorem Leads.of_turn (hstd : rules.handlers = Handler.standard) (hbudget : rules.budget = none)
    (hf : script.fetch t.pc = .ok (op, raw))
    (hd : Handler.Does script t.ready (Host.view host) op raw t₁ writes (.ok flow))
    (hfollow : (t₁.moveOn op.size).follow flow = (t', .ok .running)) :
    Leads rules script pool i t host t' (Host.performAll host writes) := by
  intro m hm
  obtain ⟨hhost, -, hok⟩ := turn_of_does hstd hm hd
  obtain ⟨hpool, hresult⟩ := hok flow rfl
  rw [hfollow] at hpool hresult
  refine ⟨(m.turn rules script i op raw).1, 1, ⟨hpool, hhost⟩, fun fuel executed => ?_⟩
  rw [← hm.thread] at hf
  exact dispatch_running hbudget hf fuel executed (Prod.ext rfl hresult)

/-- The dispatcher stops at an instruction whose handler makes the thread wait. -/
theorem Stops.of_halt (hstd : rules.handlers = Handler.standard) (hbudget : rules.budget = none)
    (hf : script.fetch t.pc = .ok (op, raw))
    (hd : Handler.Does script t.ready (Host.view host) op raw t₁ writes (.ok .halt))
    (hidle : t₁.running = false) :
    Stops rules script pool i t host (Host.performAll host writes) (.ok ()) := by
  intro m hm
  obtain ⟨hhost, -, hok⟩ := turn_of_does hstd hm hd
  obtain ⟨hpool, hresult⟩ := hok .halt rfl
  refine ⟨(m.turn rules script i op raw).1, _, 1, ⟨hpool, hhost⟩, fun _ => hidle,
    fun fuel executed => ?_⟩
  rw [← hm.thread] at hf
  exact dispatch_yielded hbudget hf fuel executed (Prod.ext rfl hresult)

/-- The dispatcher stops at an instruction whose handler faults. -/
theorem Stops.of_fault {f : Fault} (hstd : rules.handlers = Handler.standard)
    (hbudget : rules.budget = none) (hf : script.fetch t.pc = .ok (op, raw))
    (hd : Handler.Does script t.ready (Host.view host) op raw t₁ writes (.error f)) :
    Stops rules script pool i t host (Host.performAll host writes) (.error f) := by
  intro m hm
  obtain ⟨hhost, herr, -⟩ := turn_of_does hstd hm hd
  obtain ⟨hpool, hresult⟩ := herr f rfl
  refine ⟨(m.turn rules script i op raw).1, t₁, 1, ⟨hpool, hhost⟩, nofun, fun fuel executed => ?_⟩
  rw [← hm.thread] at hf
  exact dispatch_fault hbudget hf fuel executed (Prod.ext rfl hresult)

end Turns

/-! ### One pass -/

section Pass

variable {rules : Rules} {script : Script} {pool : Pool n} {i : Fin n} {t : Thread}
  {host host' : σ} {result : Except Fault Unit}

/-- Idle threads are passed over. -/
theorem runThreads_idle (fuel : Nat) {is : List (Fin n)} {m : Machine n σ}
    (h : ∀ j ∈ is, (m.pool.thread j).running = false) :
    runThreads rules script fuel is m = (m, .ok ()) := by
  induction is with
  | nil => rfl
  | cons j is ih =>
    rw [List.forall_mem_cons] at h
    rw [runThreads, if_neg (by simp [h.1]), ih h.2]

/-- A thread that stops is done with its part of a pass, and is idle afterwards. -/
theorem runThread_of_stops (hbudget : rules.budget = none) {m : Machine n σ}
    (hm : m.Shows pool i t host) (hstops : Stops rules script pool i t host host' result) :
    ∃ enough, ∀ fuel ≥ enough, ∃ (m' : Machine n σ) (t' : Thread),
      m.runThread rules script fuel i = (m', result.mapError .fault) ∧
        m'.Shows pool i t' host' ∧ t'.running = false := by
  obtain ⟨m', t', turns, hm', hidle, hd⟩ := hstops m hm
  refine ⟨turns, fun fuel hfuel => ?_⟩
  have hdispatch : dispatch rules script i (fuelFor rules fuel) 0 m =
      (m', result.mapError .fault) := by
    rw [fuelFor, hbudget]
    simpa [Nat.sub_add_cancel hfuel] using hd (fuel - turns) 0
  rw [runThread, hdispatch]
  -- without a fault the thread has made itself idle
  cases result with
  | ok u => exact ⟨m', t', rfl, hm', hidle rfl⟩
  | error f =>
    refine ⟨_, t'.halt, rfl, ⟨?_, hm'.host_eq⟩, rfl⟩
    rw [pool_say, pool_modify, Pool.modify, hm'.thread, hm'.pool_eq, Pool.replace_replace]

/-- **A pass with one running thread comes to its end where the dispatcher does.** -/
theorem pass_of_stops (hbudget : rules.budget = none) {m : Machine n σ}
    (hm : m.Shows pool i t host) (hrunning : t.running = true)
    (hothers : ∀ j ≠ i, (pool.thread j).running = false)
    (hstops : Stops rules script pool i t host host' result) :
    ∃ enough, ∀ fuel ≥ enough, ∃ (m' : Machine n σ) (t' : Thread),
      m.pass rules script fuel = (m', result.mapError .fault) ∧
        m'.Shows pool i t' host' ∧ t'.running = false := by
  obtain ⟨enough, hrun⟩ := runThread_of_stops hbudget hm hstops
  refine ⟨enough, fun fuel hfuel => ?_⟩
  obtain ⟨m', t', hout, hm', hidle⟩ := hrun fuel hfuel
  have hskip : ∀ {m : Machine n σ} {t : Thread} {host : σ} {j : Fin n},
      m.Shows pool i t host → j ≠ i → (m.pool.thread j).running = false := by
    intro m t host j hm hj
    rw [hm.pool_eq, Pool.thread_replace_of_ne _ _ hj]
    exact hothers j hj
  -- the running thread has its turn, and the ones before and after it are passed over
  have hlist : ∀ is : List (Fin n), i ∈ is → is.Nodup →
      runThreads rules script fuel is m = (m', result.mapError .fault) := by
    intro is
    induction is with
    | nil => exact nofun
    | cons j is ih =>
      intro hmem hnodup
      rw [List.nodup_cons] at hnodup
      by_cases hj : j = i
      · subst hj
        rw [runThreads, if_pos (by rw [hm.thread]; exact hrunning), hout]
        cases result with
        | ok u =>
          exact runThreads_idle fuel fun k hk =>
            hskip hm' fun hkj => hnodup.1 (hkj ▸ hk)
        | error f => rfl
      · have hmem' := (List.mem_cons.mp hmem).resolve_left (Ne.symm hj)
        rw [runThreads, if_neg (by simp [hskip hm hj]), ih hmem' hnodup.2]
  exact ⟨m', t', hlist _ (List.mem_finRange i) (List.nodup_finRange n), hm', hidle⟩

end Pass

end Machine

end RoomScript
