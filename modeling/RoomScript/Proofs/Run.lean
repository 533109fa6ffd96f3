import RoomScript.Engine
import RoomScript.Proofs.Effect

/-!
# Runs

A run of an engine is a list of calls from outside: starting threads, injecting events, passes,
clock ticks, room changes. Inside a pass the machine stands before one instruction after another;
`Machine.visits` lists these moments, each with the thread whose turn it is, exactly as the
dispatcher comes to them.

A property of threads is proved of all of these at once by showing that a turn keeps it
(`Thread.Invariant`): a turn that follows the rules of `Effect`, a start at an entry point, and
stepping over an instruction that started an event elsewhere.

**Main statements.** `Thread.Invariant.visits` and `Thread.Invariant.pass`: an invariant of threads
holds at every moment of a pass and after it. `Engine.run_invariant`: a property that is an
invariant under every script holds after every run, and at every moment of every call.
-/

namespace RoomScript

/-- Results are compared by what they hold. -/
instance decidableEqExcept {ε α : Type} [DecidableEq ε] [DecidableEq α] :
    DecidableEq (Except ε α)
  | .ok a, .ok b => decidable_of_iff (a = b) ⟨congrArg Except.ok, Except.ok.inj⟩
  | .error a, .error b => decidable_of_iff (a = b) ⟨congrArg Except.error, Except.error.inj⟩
  | .ok _, .error _ | .error _, .ok _ => .isFalse nofun

deriving instance DecidableEq for Script

/-- The host after some writes. -/
def Host.performAll {σ : Type} [Host σ] (host : σ) (ws : List Write) : σ :=
  ws.foldl (fun h w => (Host.perform h w).1) host

/-! ### What only the pool has a part in -/

namespace Machine

variable {n : Nat} {σ : Type}

@[simp] theorem pool_say (m : Machine n σ) (traces : TraceSet) (notices : List Notice) :
    (m.say traces notices).pool = m.pool := rfl

@[simp] theorem host_say (m : Machine n σ) (traces : TraceSet) (notices : List Notice) :
    (m.say traces notices).host = m.host := rfl

@[simp] theorem pool_modify (m : Machine n σ) (i : Fin n) (f : Thread → Thread) :
    (m.modify i f).pool = m.pool.modify i f := rfl

@[simp] theorem host_modify (m : Machine n σ) (i : Fin n) (f : Thread → Thread) :
    (m.modify i f).host = m.host := rfl

@[simp] theorem pool_perform [Host σ] (m : Machine n σ) (traces : TraceSet) (ws : List Write) :
    (m.perform traces ws).pool = m.pool := by
  induction ws generalizing m with
  | nil => rfl
  | cons w ws ih => rw [perform, ih]; rfl

@[simp] theorem host_perform [Host σ] (m : Machine n σ) (traces : TraceSet) (ws : List Write) :
    (m.perform traces ws).host = Host.performAll m.host ws := by
  induction ws generalizing m with
  | nil => rfl
  | cons w ws ih => rw [perform, ih]; rfl

end Machine

namespace Pool

variable {n : Nat}

theorem thread_modify_of_ne (p : Pool n) {i j : Fin n} (f : Thread → Thread) (h : j ≠ i) :
    (p.modify i f).thread j = p.thread j := thread_replace_of_ne p _ h

@[simp] theorem replace_replace (p : Pool n) (i : Fin n) (t t' : Thread) :
    (p.replace i t).replace i t' = p.replace i t' := by
  refine Pool.ext fun j => ?_
  by_cases h : j = i
  · subst h; rw [thread_replace, thread_replace]
  · rw [thread_replace_of_ne _ _ h, thread_replace_of_ne _ _ h, thread_replace_of_ne _ _ h]

@[simp] theorem replace_modify (p : Pool n) (i : Fin n) (t : Thread) (f : Thread → Thread) :
    (p.modify i f).replace i t = p.replace i t := replace_replace p i _ t

/-- What holds of every thread and of the new one holds of every thread of the new pool. -/
theorem forall_replace {T : Thread → Prop} {p : Pool n} {i : Fin n} {t : Thread}
    (h : ∀ j, T (p.thread j)) (ht : T t) (j : Fin n) : T ((p.replace i t).thread j) := by
  by_cases hj : j = i
  · subst hj; rw [thread_replace]; exact ht
  · rw [thread_replace_of_ne _ _ hj]; exact h j

end Pool

/-! ### One turn of a thread -/

namespace Thread

/-- The thread as an instruction finds it. -/
def ready (t : Thread) : Thread := { t with overridden := false }

/-- Follows the flow out of an instruction. -/
def follow (t : Thread) (flow : Flow) : Thread × Except Fault Machine.Pulse :=
  match flow with
  | .next => (t, .ok .running)
  | .halt => (t, .ok .yielded)
  | .unwind =>
    if t.level.ifCounter < 0 then (t, .ok .yielded)
    else
      match t.popBlock with
      | (t, .error f) => (t, .error f)
      | (t, .ok resume) => ({ t with pc := resume }, .ok .running)

/-- **What following the flow can do to a thread**: nothing, or it closes the innermost if block and
goes on where the block ends. -/
theorem follow_cases (t : Thread) (flow : Flow) :
    (∃ pulse, t.follow flow = (t, .ok pulse)) ∨
      0 ≤ t.level.ifCounter ∧
        ((∃ u f, t.popBlock = (u, .error f) ∧ t.follow flow = (u, .error f)) ∨
          ∃ u resume, t.popBlock = (u, .ok resume) ∧
            t.follow flow = ({ u with pc := resume }, .ok .running)) := by
  cases flow with
  | next => exact .inl ⟨_, rfl⟩
  | halt => exact .inl ⟨_, rfl⟩
  | unwind =>
    unfold follow
    simp only
    split
    · exact .inl ⟨_, rfl⟩
    · refine .inr ⟨by omega, ?_⟩
      rcases hp : t.popBlock with ⟨u, f | resume⟩
      · exact .inl ⟨u, f, rfl, rfl⟩
      · exact .inr ⟨u, resume, rfl, rfl⟩

/-- Following the flow can only miss the end of an if block. -/
theorem fault_of_follow {t : Thread} {flow : Flow} {f : Fault} (h : (t.follow flow).2 = .error f) :
    f = .emptyBlockStack t.pc := by
  obtain ⟨_, heq⟩ | ⟨-, ⟨_, _, hp, heq⟩ | ⟨_, _, -, heq⟩⟩ := follow_cases t flow <;> rw [heq] at h
  · exact nomatch h
  · cases h
    exact fault_of_popBlock hp
  · exact nomatch h

/-- **What a turn can do to its thread**: the instruction has one of its effects, and unless it
faults the thread moves on and follows the flow. -/
inductive Turned (script : Script) (view : Host.View) (t : Thread) (op : Opcode) (raw : Bytes) :
    Thread → Except Fault Machine.Pulse → Prop
  | fault {t' f} (h : Effect script view t.ready op raw t' (.error f)) :
    Turned script view t op raw t' (.error f)
  | flow {t' flow} (h : Effect script view t.ready op raw t' (.ok flow)) :
    Turned script view t op raw ((t'.moveOn op.size).follow flow).1
      ((t'.moveOn op.size).follow flow).2

end Thread

namespace Machine

variable {n : Nat} {σ : Type}

/-- Following the flow is a matter of one thread. -/
theorem follow_eq (m : Machine n σ) (rules : Rules) (i : Fin n) (flow : Flow) :
    (m.follow rules i flow).1.pool = m.pool.replace i ((m.pool.thread i).follow flow).1 ∧
      (m.follow rules i flow).2 = ((m.pool.thread i).follow flow).2 ∧
      (m.follow rules i flow).1.host = m.host := by
  cases flow with
  | next => exact ⟨(Pool.replace_thread _ _).symm, rfl, rfl⟩
  | halt => exact ⟨(Pool.replace_thread _ _).symm, rfl, rfl⟩
  | unwind =>
    unfold follow Thread.follow
    simp only
    split
    · exact ⟨(Pool.replace_thread _ _).symm, rfl, rfl⟩
    · rcases (m.pool.thread i).popBlock with ⟨t, f | resume⟩ <;> exact ⟨rfl, rfl, rfl⟩

/-- Where the instruction of a turn is executed. -/
def site (m : Machine n σ) (script : Script) (i : Fin n) : Site n :=
  ⟨script, m.pool.modify i Thread.ready, i⟩

@[simp] theorem thread_site (m : Machine n σ) (script : Script) (i : Fin n) :
    (m.site script i).thread = (m.pool.thread i).ready := Pool.thread_modify _ _ _

@[simp] theorem replace_site (m : Machine n σ) (script : Script) (i : Fin n) (t : Thread) :
    (m.site script i).replace t = m.pool.replace i t := Pool.replace_modify _ _ _ _

/-- What the handler of an opcode makes of a turn. -/
def reaction [Host σ] (m : Machine n σ) (rules : Rules) (script : Script) (i : Fin n) (op : Opcode)
    (raw : Bytes) : Reaction n :=
  (rules.handlers op).run (m.site script i) (Host.view m.host) raw

section Turn

variable [Host σ] (m : Machine n σ) (rules : Rules) (script : Script) (i : Fin n) (op : Opcode)
  (raw : Bytes)

/-- What executing an instruction comes to, given the reaction of its handler. -/
theorem execute_eq :
    ∃ m' : Machine n σ, m'.pool = (m.reaction rules script i op raw).pool ∧
      m'.host = Host.performAll m.host (m.reaction rules script i op raw).writes ∧
      m.execute rules script i op raw =
        match (m.reaction rules script i op raw).result with
        | .ok flow => (m'.modify i (·.moveOn op.size), .ok flow)
        | .error f => (m', .error f) := by
  -- the machine that the handler reacts in
  obtain ⟨m₁, hm₁⟩ : ∃ m₁ : Machine n σ, m₁ =
      (m.say rules.traces [.executing i (m.pool.thread i).pc op]).modify i
        fun t => { t with overridden := false } := ⟨_, rfl⟩
  have hresult : (m₁.react rules script i op raw).2 =
      (m.reaction rules script i op raw).result := by
    rw [hm₁]
    rfl
  refine ⟨(m₁.react rules script i op raw).1, ?_, ?_, ?_⟩
  · rw [hm₁]
    simp only [react, pool_perform, pool_say]
    rfl
  · rw [hm₁]
    simp only [react, host_perform, host_say]
    rfl
  · rw [← hresult]
    unfold execute
    simp only [← hm₁]
    rcases m₁.react rules script i op raw with ⟨m₂, f | flow⟩ <;> rfl

/-- A turn in terms of what the handler does: its writes are carried out, and unless it faults the
thread moves on and follows the flow. -/
theorem turn_eq {r : Reaction n} (hr : m.reaction rules script i op raw = r) :
    (m.turn rules script i op raw).1.host = Host.performAll m.host r.writes ∧
      (∀ f, r.result = .error f →
        (m.turn rules script i op raw).1.pool = r.pool ∧
          (m.turn rules script i op raw).2 = .error f) ∧
      (∀ flow, r.result = .ok flow →
        (m.turn rules script i op raw).1.pool =
            r.pool.replace i (((r.pool.thread i).moveOn op.size).follow flow).1 ∧
          (m.turn rules script i op raw).2 =
            (((r.pool.thread i).moveOn op.size).follow flow).2) := by
  obtain ⟨m', hpool, hhost, hexec⟩ := execute_eq m rules script i op raw
  rw [hr] at hpool hhost hexec
  unfold turn
  rw [hexec]
  cases r.result with
  | error f =>
    refine ⟨hhost, ?_, fun flow h => nomatch h⟩
    intro g hg
    cases hg
    exact ⟨hpool, rfl⟩
  | ok flow =>
    obtain ⟨hp, hres, hh⟩ := follow_eq (m'.modify i (·.moveOn op.size)) rules i flow
    rw [pool_modify, Pool.thread_modify, hpool] at hp hres
    rw [Pool.replace_modify] at hp
    -- what the follow-up does is told from the thread after it was moved on
    refine ⟨hh.trans hhost, (fun f h => nomatch h), ?_⟩
    intro flow' hflow
    cases hflow
    exact ⟨hp, hres⟩

variable {rules op raw}

/-- The handler of an instruction gets to see the payload that its bytes decode to. -/
theorem reaction_of_decode {α : Type} [Payload α]
    {run : {n : Nat} → Site n → Host.View → α → Reaction n}
    (hhandler : rules.handlers op = Handler.reading α run) {p : α}
    (hp : Payload.decode α raw = .ok p) :
    m.reaction rules script i op raw = run (m.site script i) (Host.view m.host) p := by
  rw [reaction, hhandler]
  simp only [Handler.reading, Payload.decodeAt_of_decode hp]

/-- The handler of an instruction that was fetched gets to see its payload. -/
theorem reaction_reading {α : Type} [Payload α]
    {run : {n : Nat} → Site n → Host.View → α → Reaction n}
    (hhandler : rules.handlers op = Handler.reading α run)
    (hf : script.fetch (m.pool.thread i).pc = .ok (op, raw))
    (hwidth : 1 + (Payload.layout op : Layout α).width ≤ op.size) :
    ∃ p : α, Payload.decode α raw = .ok p ∧
      m.reaction rules script i op raw = run (m.site script i) (Host.view m.host) p := by
  rw [reaction, hhandler]
  exact Handler.reading_run run (Script.whole_of_fetch hf) hwidth _ _

/-- A turn whose handler asks for writes carries them out, and the thread goes on. -/
theorem turn_ask {writes : List Write} {notices : List Notice}
    (hr : m.reaction rules script i op raw = (m.site script i).ask writes notices) :
    (m.turn rules script i op raw).1.host = Host.performAll m.host writes ∧
      (m.turn rules script i op raw).2 = .ok .running := by
  obtain ⟨hhost, -, hok⟩ := m.turn_eq rules script i op raw hr
  exact ⟨hhost, (hok .next rfl).2⟩

/-- A turn whose handler does nothing but fault leaves the host alone. -/
theorem turn_refuse {f : Fault}
    (hr : m.reaction rules script i op raw = (m.site script i).fault f) :
    (m.turn rules script i op raw).1.host = m.host ∧
      (m.turn rules script i op raw).2 = .error f := by
  obtain ⟨hhost, herr, -⟩ := m.turn_eq rules script i op raw hr
  exact ⟨hhost, (herr f rfl).2⟩

/-- **A turn is a matter of one thread**, unless it starts an event. -/
theorem turn_local (hstd : rules.handlers = Handler.standard) (hw : Whole op raw)
    (hop : op ≠ .evtExec) :
    ∃ t, (m.turn rules script i op raw).1.pool = m.pool.replace i t ∧
      Thread.Turned script (Host.view m.host) (m.pool.thread i) op raw t
        (m.turn rules script i op raw).2 := by
  obtain ⟨t, hpool, heff⟩ :=
    Handler.standard_effect (m.site script i) (Host.view m.host) hw hop
  rw [← hstd] at hpool heff
  rw [thread_site] at heff
  rw [replace_site] at hpool
  obtain ⟨-, herr, hok⟩ := m.turn_eq rules script i op raw rfl
  rw [reaction, hpool] at herr hok
  -- the rule that the handler has followed decides whether the thread is moved on
  cases hres : ((rules.handlers op).run (m.site script i) (Host.view m.host) raw).result with
  | error f =>
    rw [hres] at heff
    obtain ⟨hp, hr⟩ := herr f hres
    exact ⟨t, hp, hr ▸ .fault heff⟩
  | ok flow =>
    rw [hres] at heff
    obtain ⟨hp, hr⟩ := hok flow hres
    rw [Pool.thread_replace] at hp hr
    rw [Pool.replace_replace] at hp
    exact ⟨_, hp, hr ▸ Thread.Turned.flow heff⟩

/-- A turn that starts an event steps over the instruction, unless the event is taken by the thread
that started it. -/
theorem turn_event (hstd : rules.handlers = Handler.standard) (hw : Whole .evtExec raw) :
    (∃ j event address, script.entry event = .ok address ∧
      (m.turn rules script i .evtExec raw).1.pool =
        ((m.pool.modify i Thread.ready).modify j (·.activate address)).modify i
          (·.moveOn Opcode.evtExec.size) ∧
      (m.turn rules script i .evtExec raw).2 = .ok .running) ∨
    (∃ f, (m.turn rules script i .evtExec raw).1.pool = m.pool.modify i Thread.ready ∧
      (m.turn rules script i .evtExec raw).2 = .error f ∧
      ((∃ e, f = .unknownEntry e) ∨ f = .invalidThread 0)) := by
  obtain ⟨-, herr, hok⟩ := m.turn_eq rules script i .evtExec raw rfl
  rw [reaction, hstd] at herr hok
  rcases Handler.evtExec_effect (m.site script i) (Host.view m.host) hw with
    ⟨j, event, address, he, hpool, hres⟩ | ⟨f, hpool, hres, hf⟩
  · obtain ⟨hp, hr⟩ := hok .next hres
    rw [hpool] at hp
    exact .inl ⟨j, event, address, he, hp, hr⟩
  · obtain ⟨hp, hr⟩ := herr f hres
    exact .inr ⟨f, hp.trans hpool, hr, hf⟩

end Turn

end Machine

/-! ### Starting threads -/

namespace Machine

variable {n : Nat} {σ : Type}

/-- Starting a thread changes nothing, or this thread alone. -/
theorem start_cases (m : Machine n σ) (rules : Rules) (script : Script) (thread entry : Nat) :
    (∃ f, m.start rules script thread entry = (m, .error f)) ∨
      ∃ (m' : Machine n σ) (hlt : thread < n) (address : Nat),
        m.start rules script thread entry = (m', .ok ()) ∧ script.entry entry = .ok address ∧
          m'.pool = m.pool.modify ⟨thread, hlt⟩ (·.activate address) := by
  unfold start
  cases script.entry entry with
  | error f => exact .inl ⟨f, rfl⟩
  | ok address =>
    simp only
    split
    · next hlt => exact .inr ⟨_, hlt, address, rfl, rfl, rfl⟩
    · exact .inl ⟨_, rfl⟩

/-- An instruction from outside changes nothing, or the thread alone that takes its event. -/
theorem inject_cases (m : Machine n σ) (rules : Rules) (script : Script) (raw : Bytes) :
    (∃ m' f, m.inject rules script raw = (m', .error f) ∧ m'.pool = m.pool) ∨
      ∃ (m' : Machine n σ) (i : Fin n) (index address : Nat),
        m.inject rules script raw = (m', .ok i) ∧ script.entry index = .ok address ∧
          m'.pool = m.pool.replace i ((m.pool.thread i).activate address) := by
  -- bytes that are no event instruction are turned down before anything is decoded
  have hread : (∃ f, m.inject rules script raw = (m, .error f)) ∨
      m.inject rules script raw = inject.startEvent m rules script raw := by
    unfold inject
    split
    · split
      · exact .inr rfl
      · exact .inl ⟨_, rfl⟩
    · exact .inr rfl
  obtain ⟨f, hi⟩ | hi := hread
  · exact .inl ⟨m, f, hi, rfl⟩
  rw [hi]
  unfold inject.startEvent
  cases Payload.decodeAt Payload.EvtExec raw 0 with
  | error f => exact .inl ⟨m, f, rfl, rfl⟩
  | ok p =>
    simp only
    rcases hs : (Control.schedule script m.pool p).result with f | ⟨i, pool⟩
    · exact .inl ⟨_, f, rfl, rfl⟩
    · obtain ⟨address, hentry, hpool⟩ := Control.schedule_ok hs
      exact .inr ⟨_, i, _, address, rfl, hentry, hpool⟩

end Machine

/-! ### Invariants of threads -/

namespace Thread

/-- Two threads that stand at the same place with the same control state. -/
structure Same (t t' : Thread) : Prop where
  pc : t'.pc = t.pc
  sub : t'.sub = t.sub
  stackIndex : t'.stackIndex = t.stackIndex
  levels : t'.levels = t.levels

/-- **A property that threads keep while they run a script.** -/
structure Invariant (script : Script) (T : Thread → Prop) : Prop where
  /-- It is a matter of place and control state. -/
  congr : ∀ {t t'}, Same t t' → T t → T t'
  /-- It holds of a thread that is started. -/
  activate : ∀ {t entry address}, script.entry entry = .ok address → T t → T (t.activate address)
  /-- It holds behind an instruction that starts an event. -/
  event : ∀ {t raw}, script.fetch t.pc = .ok (.evtExec, raw) → T t →
    T { t with pc := t.pc + Opcode.evtExec.size }
  /-- It holds after a turn. -/
  turn : ∀ {view t op raw t' res}, script.fetch t.pc = .ok (op, raw) → op ≠ .evtExec →
    Turned script view t op raw t' res → T t → T t'

variable {script : Script} {T : Thread → Prop}

theorem Same.ready (t : Thread) : Same t t.ready := ⟨rfl, rfl, rfl, rfl⟩

theorem Same.halt (t : Thread) : Same t t.halt := ⟨rfl, rfl, rfl, rfl⟩

end Thread

namespace Thread.Invariant

variable {script : Script} {T : Thread → Prop} {n : Nat} {σ : Type} [Host σ] {rules : Rules}
  {i : Fin n} {op : Opcode} {raw : Bytes}

/-- An invariant is kept by a turn of any thread of a pool. -/
theorem turn_pool (hT : Invariant script T) (hstd : rules.handlers = Handler.standard)
    {m : Machine n σ} (h : ∀ j, T (m.pool.thread j))
    (hf : script.fetch (m.pool.thread i).pc = .ok (op, raw)) (j : Fin n) :
    T ((m.turn rules script i op raw).1.pool.thread j) := by
  have hw := Script.whole_of_fetch hf
  by_cases hop : op = .evtExec
  · subst hop
    have hready : ∀ j, T ((m.pool.modify i Thread.ready).thread j) :=
      Pool.forall_replace h (hT.congr (.ready _) (h i))
    rcases m.turn_event script i hstd hw with
      ⟨k, event, address, he, hp, -⟩ | ⟨f, hp, -⟩
    · rw [hp]
      have hstart := Pool.forall_replace (i := k) hready (hT.activate he (hready k))
      refine Pool.forall_replace hstart ?_ j
      by_cases hk : i = k
      · -- the thread has taken its own event, and stays where it was started
        subst hk
        rw [Pool.thread_modify, Pool.thread_modify]
        exact hT.congr (t := (m.pool.thread i).activate address) ⟨rfl, rfl, rfl, rfl⟩
          (hT.activate he (h i))
      · rw [Pool.thread_modify_of_ne _ _ hk, Pool.thread_modify]
        exact hT.congr (t := { m.pool.thread i with pc := _ }) ⟨rfl, rfl, rfl, rfl⟩
          (hT.event hf (h i))
    · rw [hp]
      exact hready j
  · obtain ⟨t, hp, hturn⟩ := m.turn_local script i hstd hw hop
    rw [hp]
    exact Pool.forall_replace h (hT.turn hf hop hturn (h i)) j

end Thread.Invariant

/-! ### The moments of a pass -/

namespace Machine

variable {n : Nat} {σ : Type} [Host σ]

/-- The machines a dispatch stands in, each before an instruction is fetched. -/
def dispatchVisits (rules : Rules) (script : Script) (i : Fin n) :
    (fuel executed : Nat) → Machine n σ → List (Machine n σ)
  | 0, _, _ => []
  | fuel + 1, executed, m =>
    m :: match script.fetch (m.pool.thread i).pc with
      | .error _ => []
      | .ok (op, raw) =>
        match overBudget? rules i executed with
        | some _ => []
        | none =>
          match m.turn rules script i op raw with
          | (m, .ok .running) => dispatchVisits rules script i fuel (executed + 1) m
          | _ => []

/-- The machines that dispatching some threads stands in, each with the thread whose turn it is. -/
def threadVisits (rules : Rules) (script : Script) (fuel : Nat) :
    List (Fin n) → Machine n σ → List (Fin n × Machine n σ)
  | [], _ => []
  | i :: rest, m =>
    if (m.pool.thread i).running then
      (dispatchVisits rules script i (fuelFor rules fuel) 0 m).map (i, ·) ++
        match m.runThread rules script fuel i with
        | (m, .ok ()) => threadVisits rules script fuel rest m
        | _ => []
    else threadVisits rules script fuel rest m

/-- **The moments of a pass**: before every instruction, the thread whose turn it is and the machine
it stands in. -/
def visits (m : Machine n σ) (rules : Rules) (script : Script) (fuel : Nat) :
    List (Fin n × Machine n σ) :=
  threadVisits rules script fuel (List.finRange n) m

/-! ### Where faults come from -/

/-- **The moments at which a thread is stopped for a fault**: there is no instruction where it
stands, it has used up its budget, or the instruction faults. -/
def StoppedBy (m : Machine n σ) (rules : Rules) (script : Script) (i : Fin n) (f : Fault) : Prop :=
  script.fetch (m.pool.thread i).pc = .error f ∨
    (∃ executed, overBudget? rules i executed = some f) ∨
    ∃ op raw, script.fetch (m.pool.thread i).pc = .ok (op, raw) ∧
      (m.turn rules script i op raw).2 = .error f

variable {rules : Rules} {script : Script} {i : Fin n} {fuel : Nat} {f : Fault}

omit [Host σ] in
/-- Running over the budget is a fault of its own. -/
theorem fault_of_overBudget {thread executed : Nat}
    (h : overBudget? rules thread executed = some f) :
    ∃ budget, f = .budgetExceeded thread budget := by
  unfold overBudget? at h
  split at h
  · split at h
    · cases h; exact ⟨_, rfl⟩
    · exact nomatch h
  · exact nomatch h

end Machine

namespace Thread.Invariant

variable {script : Script} {T : Thread → Prop} {n : Nat} {σ : Type} [Host σ] {rules : Rules}
  {i : Fin n}

theorem dispatch (hT : Invariant script T) (hstd : rules.handlers = Handler.standard)
    (fuel executed : Nat) {m : Machine n σ} (h : ∀ j, T (m.pool.thread j)) :
    (∀ v ∈ Machine.dispatchVisits rules script i fuel executed m, ∀ j, T (v.pool.thread j)) ∧
      ∀ j, T ((Machine.dispatch rules script i fuel executed m).1.pool.thread j) := by
  -- with the fuel, as `dispatch` and `dispatchVisits` go; only a turn that runs on makes a further
  -- moment, and for it the induction starts from the threads that the turn has left
  induction fuel generalizing executed m with
  | zero => exact ⟨List.forall_mem_nil _, h⟩
  | succ fuel ih =>
    simp only [Machine.dispatchVisits, Machine.dispatch, List.forall_mem_cons]
    cases hf : script.fetch (m.pool.thread i).pc with
    | error f => exact ⟨⟨h, List.forall_mem_nil _⟩, h⟩
    | ok fetched =>
      cases Machine.overBudget? rules i executed with
      | some f => exact ⟨⟨h, List.forall_mem_nil _⟩, h⟩
      | none =>
        have hturn := hT.turn_pool hstd h hf
        rcases ht : m.turn rules script i fetched.1 fetched.2 with ⟨m', f | pulse⟩
        · rw [ht] at hturn
          simp only [ht]
          exact ⟨⟨h, List.forall_mem_nil _⟩, hturn⟩
        · rw [ht] at hturn
          cases pulse with
          | yielded =>
            simp only [ht]
            exact ⟨⟨h, List.forall_mem_nil _⟩, hturn⟩
          | running =>
            simp only [ht]
            obtain ⟨hv, hd⟩ := ih (executed + 1) hturn
            exact ⟨⟨h, hv⟩, hd⟩

theorem runThread (hT : Invariant script T) (hstd : rules.handlers = Handler.standard)
    (fuel : Nat) {m : Machine n σ} (h : ∀ j, T (m.pool.thread j)) (j : Fin n) :
    T ((m.runThread rules script fuel i).1.pool.thread j) := by
  have hd := (hT.dispatch hstd (i := i) (Machine.fuelFor rules fuel) 0 h).2
  -- a fault makes the thread idle, which is no matter of its place
  unfold Machine.runThread
  rcases hr : Machine.dispatch rules script i (Machine.fuelFor rules fuel) 0 m with
    ⟨m', (f | _) | _⟩ <;> rw [hr] at hd
  · exact Pool.forall_replace hd (hT.congr (.halt _) (hd i)) j
  · exact hd j
  · exact hd j

theorem threads (hT : Invariant script T) (hstd : rules.handlers = Handler.standard)
    (fuel : Nat) (is : List (Fin n)) {m : Machine n σ} (h : ∀ j, T (m.pool.thread j)) :
    (∀ v ∈ Machine.threadVisits rules script fuel is m, ∀ j, T (v.2.pool.thread j)) ∧
      ∀ j, T ((Machine.runThreads rules script fuel is m).1.pool.thread j) := by
  -- on the threads that are still to come, for every machine that the earlier ones may leave
  induction is generalizing m with
  | nil => exact ⟨List.forall_mem_nil _, h⟩
  | cons i is ih =>
    simp only [Machine.threadVisits, Machine.runThreads]
    by_cases hrun : (m.pool.thread i).running = true
    · simp only [if_pos hrun, List.forall_mem_append, List.forall_mem_map]
      have hv := (hT.dispatch hstd (i := i) (Machine.fuelFor rules fuel) 0 h).1
      have ht := hT.runThread hstd (i := i) fuel h
      rcases hr : m.runThread rules script fuel i with ⟨m', stop | ⟨⟩⟩
      · rw [hr] at ht
        exact ⟨⟨hv, List.forall_mem_nil _⟩, ht⟩
      · rw [hr] at ht
        exact ⟨⟨hv, (ih ht).1⟩, (ih ht).2⟩
    · simp only [if_neg hrun]
      exact ih h

/-- **An invariant holds at every moment of a pass**, for every thread. -/
theorem visits (hT : Invariant script T) (hstd : rules.handlers = Handler.standard) (fuel : Nat)
    {m : Machine n σ} (h : ∀ j, T (m.pool.thread j)) :
    ∀ v ∈ m.visits rules script fuel, ∀ j, T (v.2.pool.thread j) :=
  (hT.threads hstd fuel _ h).1

/-- An invariant holds after a pass. -/
theorem pass (hT : Invariant script T) (hstd : rules.handlers = Handler.standard) (fuel : Nat)
    {m : Machine n σ} (h : ∀ j, T (m.pool.thread j)) :
    ∀ j, T ((m.pass rules script fuel).1.pool.thread j) :=
  (hT.threads hstd fuel _ h).2

omit [Host σ] in
/-- An invariant holds after a thread is started. -/
theorem start (hT : Invariant script T) (rules : Rules) (thread entry : Nat) {m : Machine n σ}
    (h : ∀ j, T (m.pool.thread j)) :
    ∀ j, T ((m.start rules script thread entry).1.pool.thread j) := by
  obtain ⟨f, hs⟩ | ⟨m', hlt, address, hs, he, hpool⟩ :=
    m.start_cases rules script thread entry <;> rw [hs]
  · exact h
  · rw [hpool]
    exact Pool.forall_replace h (hT.activate he (h _))

omit [Host σ] in
/-- An invariant holds after an event is injected. -/
theorem inject (hT : Invariant script T) (rules : Rules) (raw : Bytes) {m : Machine n σ}
    (h : ∀ j, T (m.pool.thread j)) :
    ∀ j, T ((m.inject rules script raw).1.pool.thread j) := by
  obtain ⟨m', f, hi, hpool⟩ | ⟨m', i, index, address, hi, he, hpool⟩ :=
    m.inject_cases rules script raw <;> rw [hi, hpool]
  · exact h
  · exact Pool.forall_replace h (hT.activate he (h _))

end Thread.Invariant

/-! ### Calls from outside -/

/-- What can be asked of an engine, with the scripts that come along. -/
inductive Call (σ : Type)
  /-- Starts a thread at an entry point. -/
  | start (script : Script) (thread entry : Nat)
  /-- Carries out an event instruction on behalf of the game. -/
  | inject (script : Script) (raw : Bytes)
  /-- Makes one pass. -/
  | pass (script : Script) (fuel : Nat)
  /-- Adds time, and makes a pass if it is due. -/
  | advance (script : Script) (elapsed : Float) (fuel : Nat)
  /-- Enters a room. -/
  | loadRoom (init room : Script) (fuel : Nat)
  /-- Makes every thread idle. -/
  | reset
  /-- The game goes on outside of the scripts. -/
  | play (host : σ)

/-- The scripts a call comes with. -/
def Call.scripts {σ : Type} : Call σ → List Script
  | .start script _ _ | .inject script _ | .pass script _ | .advance script _ _ => [script]
  | .loadRoom init room _ => [init, room]
  | .reset | .play _ => []

namespace Engine

variable {n : Nat} {σ : Type} [Host σ]

/-- The engine after a call, whether it succeeded or not. -/
def call (e : Engine n σ) : Call σ → Engine n σ
  | .start script thread entry =>
    { e with machine := (e.machine.start e.rules script thread entry).1 }
  | .inject script raw => { e with machine := (e.machine.inject e.rules script raw).1 }
  | .pass script fuel => { e with machine := (e.machine.pass e.rules script fuel).1 }
  | .advance script elapsed fuel => (e.advance script elapsed fuel).1
  | .loadRoom init room fuel =>
    { e with machine := (e.machine.loadRoom e.rules init room fuel).1 }
  | .reset => { e with machine := e.machine.reset }
  | .play host => { e with machine := { e.machine with host := host } }

/-- The moments a call comes to: before every instruction, the thread whose turn it is and the
machine it stands in. -/
def visits (e : Engine n σ) : Call σ → List (Fin n × Machine n σ)
  | .pass script fuel => e.machine.visits e.rules script fuel
  | .advance script elapsed fuel =>
    if e.gathered + elapsed ≤ e.interval then [] else e.machine.visits e.rules script fuel
  | .loadRoom init _ fuel =>
    match e.machine.reset.start e.rules init 0 0 with
    | (m, .ok ()) => m.visits e.rules init fuel
    | _ => []
  | _ => []

/-- The engine after a run of calls. -/
def run (e : Engine n σ) (calls : List (Call σ)) : Engine n σ := calls.foldl call e

/-- The moments a run of calls comes to. -/
def moments (e : Engine n σ) : List (Call σ) → List (Fin n × Machine n σ)
  | [] => []
  | c :: calls => e.visits c ++ (e.call c).moments calls

@[simp] theorem rules_call (e : Engine n σ) (c : Call σ) : (e.call c).rules = e.rules := by
  cases c with
  | advance script elapsed fuel =>
    simp only [call, advance]
    split
    · rfl
    · rcases e.machine.pass e.rules script fuel with ⟨m, stop | _⟩ <;> rfl
  | _ => rfl

@[simp] theorem rules_run (e : Engine n σ) (calls : List (Call σ)) :
    (e.run calls).rules = e.rules := by
  induction calls generalizing e with
  | nil => rfl
  | cons c calls ih => exact (ih (e.call c)).trans (rules_call e c)

/-- Whatever is asked of a new engine, it keeps to the instructions of the table. -/
theorem handlers_run_ofConfig (config : Config) (traces : TraceSet) (host : σ)
    (calls : List (Call σ)) :
    ((ofConfig config traces host).run calls).rules.handlers = Handler.standard := by
  rw [rules_run]
  rfl

omit [Host σ] in
/-- What holds of threads that have not been started holds of those of a new engine. -/
theorem ofConfig_invariant {T : Thread → Prop} (h : ∀ id, T (.idle id)) (config : Config)
    (traces : TraceSet) (host : σ) (j : Fin config.threadCount) :
    T ((ofConfig config traces host).machine.pool.thread j) := by
  change T ((Pool.idle config.threadCount).thread j)
  rw [Pool.thread_idle]
  exact h j

end Engine

section Calls

variable {n : Nat} {σ : Type} {T : Thread → Prop}

theorem Machine.reset_invariant (hsame : ∀ {t t'}, Thread.Same t t' → T t → T t')
    {m : Machine n σ} (h : ∀ j, T (m.pool.thread j)) : ∀ j, T (m.reset.pool.thread j) := by
  intro j
  rw [Machine.reset, Pool.thread_halt]
  exact hsame (.halt _) (h j)

theorem Machine.startRoom_invariant {room : Script} (hT : Thread.Invariant room T)
    (rules : Rules) (whenSingle : List Notice) {m : Machine n σ} (h : ∀ j, T (m.pool.thread j)) :
    ∀ j, T ((m.startRoom rules room whenSingle).1.pool.thread j) := by
  have h₀ := hT.start rules 0 0 h
  unfold Machine.startRoom
  rcases hs : m.start rules room 0 0 with ⟨m', f | _⟩ <;> rw [hs] at h₀
  · exact h₀
  · simp only
    split
    · exact hT.start rules 1 1 h₀
    · exact h₀

variable [Host σ]

theorem Machine.loadRoom_invariant {init room : Script} (hi : Thread.Invariant init T)
    (hr : Thread.Invariant room T) {rules : Rules} (hstd : rules.handlers = Handler.standard)
    (fuel : Nat) {m : Machine n σ} (h : ∀ j, T (m.pool.thread j)) :
    ∀ j, T ((m.loadRoom rules init room fuel).1.pool.thread j) := by
  have h₀ := hi.start rules 0 0 (reset_invariant hi.congr h)
  -- each stage keeps the invariant of its own script, up to the first one that fails
  unfold Machine.loadRoom
  rcases hs : m.reset.start rules init 0 0 with ⟨m₁, f | _⟩ <;> rw [hs] at h₀
  · exact h₀
  · have h₁ := hi.pass hstd fuel h₀
    simp only
    rcases hp : m₁.pass rules init fuel with ⟨m₂, stop | _⟩ <;> rw [hp] at h₁
    · exact h₁
    · have h₂ := startRoom_invariant hr rules [.singleEntry] h₁
      simp only
      rcases hq : m₂.startRoom rules room [.singleEntry] with ⟨m₃, f | _⟩ <;> rw [hq] at h₂ <;>
        exact h₂

/-- **What every script of a call keeps holds after the call.** -/
theorem Engine.call_invariant {e : Engine n σ} (hstd : e.rules.handlers = Handler.standard)
    (hsame : ∀ {t t'}, Thread.Same t t' → T t → T t') {c : Call σ}
    (hc : ∀ s ∈ c.scripts, Thread.Invariant s T) (h : ∀ j, T (e.machine.pool.thread j)) :
    ∀ j, T ((e.call c).machine.pool.thread j) := by
  cases c with
  | start s thread entry => exact (hc s (by simp [Call.scripts])).start e.rules thread entry h
  | inject s raw => exact (hc s (by simp [Call.scripts])).inject e.rules raw h
  | pass s fuel => exact (hc s (by simp [Call.scripts])).pass hstd fuel h
  -- the clock only decides whether there is a pass
  | advance s elapsed fuel =>
    have hp := (hc s (by simp [Call.scripts])).pass hstd fuel h
    simp only [call, Engine.advance]
    split
    · exact h
    · rcases hr : e.machine.pass e.rules s fuel with ⟨m, stop | _⟩ <;> rw [hr] at hp <;> exact hp
  | loadRoom init room fuel =>
    exact Machine.loadRoom_invariant (hc init (by simp [Call.scripts]))
      (hc room (by simp [Call.scripts])) hstd fuel h
  | reset => exact Machine.reset_invariant hsame h
  | play host => exact h

/-- What every script of a call keeps holds at every moment of the call. -/
theorem Engine.visits_invariant {e : Engine n σ} (hstd : e.rules.handlers = Handler.standard)
    {c : Call σ} (hc : ∀ s ∈ c.scripts, Thread.Invariant s T)
    (h : ∀ j, T (e.machine.pool.thread j)) :
    ∀ v ∈ e.visits c, ∀ j, T (v.2.pool.thread j) := by
  cases c with
  | pass s fuel => exact (hc s (by simp [Call.scripts])).visits hstd fuel h
  | advance s elapsed fuel =>
    simp only [Engine.visits]
    split
    · exact List.forall_mem_nil _
    · exact (hc s (by simp [Call.scripts])).visits hstd fuel h
  | loadRoom init room fuel =>
    have hi := hc init (by simp [Call.scripts])
    have h₀ := hi.start e.rules 0 0 (Machine.reset_invariant hi.congr h)
    simp only [Engine.visits]
    rcases hs : e.machine.reset.start e.rules init 0 0 with ⟨m, f | _⟩ <;> rw [hs] at h₀
    · exact List.forall_mem_nil _
    · exact hi.visits hstd fuel h₀
  | start _ _ _ | inject _ _ | reset | play _ => exact List.forall_mem_nil _

/-- **What every script of a run keeps holds after the run.** -/
theorem Engine.run_invariant {e : Engine n σ} (hstd : e.rules.handlers = Handler.standard)
    (hsame : ∀ {t t'}, Thread.Same t t' → T t → T t') {calls : List (Call σ)}
    (hc : ∀ c ∈ calls, ∀ s ∈ c.scripts, Thread.Invariant s T)
    (h : ∀ j, T (e.machine.pool.thread j)) : ∀ j, T ((e.run calls).machine.pool.thread j) := by
  induction calls generalizing e with
  | nil => exact h
  | cons c calls ih =>
    rw [List.forall_mem_cons] at hc
    exact ih (by rw [rules_call]; exact hstd) hc.2 (e.call_invariant hstd hsame hc.1 h)

/-- What every script of a run keeps holds at every moment of the run. -/
theorem Engine.moments_invariant {e : Engine n σ} (hstd : e.rules.handlers = Handler.standard)
    (hsame : ∀ {t t'}, Thread.Same t t' → T t → T t') {calls : List (Call σ)}
    (hc : ∀ c ∈ calls, ∀ s ∈ c.scripts, Thread.Invariant s T)
    (h : ∀ j, T (e.machine.pool.thread j)) :
    ∀ v ∈ e.moments calls, ∀ j, T (v.2.pool.thread j) := by
  induction calls generalizing e with
  | nil => exact List.forall_mem_nil _
  | cons c calls ih =>
    rw [List.forall_mem_cons] at hc
    rw [moments, List.forall_mem_append]
    exact ⟨e.visits_invariant hstd hc.1 h,
      ih (by rw [rules_call]; exact hstd) hc.2 (e.call_invariant hstd hsame hc.1 h)⟩

end Calls

end RoomScript
