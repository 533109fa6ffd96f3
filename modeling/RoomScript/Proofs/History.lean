import RoomScript.Proofs.Isolation

/-!
# What happens in a run

The calls that an engine gets do two things to its threads: they start some of them, and they let
them execute instructions. The history of a run lists both in the order in which they happen, with
the machine that every instruction finds. An instruction may start a thread as well, by an event, so
a thread is *activated* in two ways.

Between two happenings a thread stays as it is, or is made idle. `Machine.Path` says this, and a
property of histories is shown along it: once for a start, once for a turn, and never for the calls
and the passes they are part of.

One step above, a thread has all its turns at once: it is *dispatched*, and there it can be seen
that it was running and what a fault makes of it. The occasions of a run are its starts and its
dispatches. `Machine.Tour` goes along them, and `Machine.Course` along what happens at them.

**Main statements.** `Engine.tour_occasions`: the occasions of a run lead from the engine at its
start to the engine at its end. `Engine.history_eq`: the history of a run is what happens at its
occasions. `Engine.course_history` and `Engine.path_history`: so the history leads there as well,
dispatch by dispatch and turn by turn.
-/

namespace RoomScript

/-- Something that happens to the threads of an engine. -/
inductive Happening (n : Nat) (σ : Type)
  /-- A thread is started from outside. -/
  | starts (i : Fin n)
  /-- An instruction is executed. -/
  | executes (t : Machine.Turn n σ)

/-- **A thread is activated**, from outside or by an instruction that starts an event on it. -/
def Happening.Activates {n : Nat} {σ : Type} (i : Fin n) : Happening n σ → Prop
  | .starts j => j = i
  | .executes t => ∃ address, t.Starts i address

/-- If one thread is made idle, every thread is left alone or made idle. -/
theorem Pool.thread_modify_halt {n : Nat} (p : Pool n) (i j : Fin n) :
    (p.modify i Thread.halt).thread j = p.thread j ∨
      (p.modify i Thread.halt).thread j = (p.thread j).halt := by
  by_cases hj : j = i
  · subst hj
    exact .inr (Pool.thread_modify _ _ _)
  · exact .inl (Pool.thread_modify_of_ne _ _ hj)

namespace Machine

variable {n : Nat} {σ : Type}

/-! ### Histories -/

/-- What happens when a thread is started. -/
def startHistory (m : Machine n σ) (rules : Rules) (script : Script) (thread entry : Nat) :
    List (Happening n σ) :=
  match (m.start rules script thread entry).2 with
  | .ok () => if h : thread < n then [.starts ⟨thread, h⟩] else []
  | .error _ => []

/-- What happens when an event is injected. -/
def injectHistory (m : Machine n σ) (rules : Rules) (script : Script) (raw : Bytes) :
    List (Happening n σ) :=
  match (m.inject rules script raw).2 with
  | .ok i => [.starts i]
  | .error _ => []

/-- What happens when the threads of a room are started. -/
def startRoomHistory (m : Machine n σ) (rules : Rules) (room : Script) : List (Happening n σ) :=
  m.startHistory rules room 0 0 ++
    match m.start rules room 0 0 with
    | (m, .ok ()) => if 1 < room.entries.length then m.startHistory rules room 1 1 else []
    | _ => []

/-! Nothing else than starts happens so far. -/

theorem startHistory_starts {m : Machine n σ} {rules : Rules} {script : Script}
    {thread entry : Nat} :
    ∀ x ∈ m.startHistory rules script thread entry, ∃ i, x = .starts i := by
  intro x hx
  unfold startHistory at hx
  split at hx
  · split at hx
    · exact ⟨_, List.mem_singleton.mp hx⟩
    · exact nomatch hx
  · exact nomatch hx

theorem injectHistory_starts {m : Machine n σ} {rules : Rules} {script : Script} {raw : Bytes} :
    ∀ x ∈ m.injectHistory rules script raw, ∃ i, x = .starts i := by
  intro x hx
  unfold injectHistory at hx
  split at hx
  · exact ⟨_, List.mem_singleton.mp hx⟩
  · exact nomatch hx

theorem startRoomHistory_starts {m : Machine n σ} {rules : Rules} {room : Script} :
    ∀ x ∈ m.startRoomHistory rules room, ∃ i, x = .starts i := by
  intro x hx
  unfold startRoomHistory at hx
  rcases List.mem_append.mp hx with hx | hx
  · exact startHistory_starts x hx
  · split at hx
    · split at hx
      · exact startHistory_starts x hx
      · exact nomatch hx
    · exact nomatch hx

variable [Host σ]

/-- What happens in a pass. -/
def passHistory (m : Machine n σ) (rules : Rules) (script : Script) (fuel : Nat) :
    List (Happening n σ) :=
  (m.dispatches rules script fuel).flatMap fun d =>
    (d.2.turns rules script fuel d.1).map .executes

/-- What happens when a room is entered. -/
def loadRoomHistory (m : Machine n σ) (rules : Rules) (init room : Script) (fuel : Nat) :
    List (Happening n σ) :=
  m.reset.startHistory rules init 0 0 ++
    match m.reset.start rules init 0 0 with
    | (m, .ok ()) =>
      m.passHistory rules init fuel ++
        match m.pass rules init fuel with
        | (m, .ok ()) => m.startRoomHistory rules room
        | _ => []
    | _ => []

/-! ### Occasions -/

/-- A dispatch of a thread: what it is dispatched with, and the machine it finds. -/
structure Dispatch (n : Nat) (σ : Type) where
  script : Script
  fuel : Nat
  thread : Fin n
  machine : Machine n σ

/-- The instructions that a dispatch executes. -/
def Dispatch.turns (d : Dispatch n σ) (rules : Rules) : List (Turn n σ) :=
  d.machine.turns rules d.script d.fuel d.thread

/-- What comes of a dispatch. -/
def Dispatch.outcome (d : Dispatch n σ) (rules : Rules) : Machine n σ × Except Stop Unit :=
  d.machine.runThread rules d.script d.fuel d.thread

end Machine

/-- Something that an engine does with its threads. -/
inductive Occasion (n : Nat) (σ : Type)
  /-- A thread is started from outside. -/
  | starts (i : Fin n)
  /-- A thread is given its turns. -/
  | dispatches (d : Machine.Dispatch n σ)

section Occasions

variable {n : Nat} {σ : Type}

/-- What happens on an occasion. -/
def Occasion.happenings [Host σ] (rules : Rules) : Occasion n σ → List (Happening n σ)
  | .starts i => [.starts i]
  | .dispatches d => (d.turns rules).map .executes

/-- A thread is activated on an occasion. -/
def Occasion.Activates [Host σ] (rules : Rules) (i : Fin n) (o : Occasion n σ) : Prop :=
  ∃ h ∈ o.happenings rules, h.Activates i

/-- A start is an occasion by itself. -/
def Happening.occasion? : Happening n σ → Option (Occasion n σ)
  | .starts i => some (.starts i)
  | .executes _ => none

/-- Starts are what happens on their occasions. -/
theorem Occasion.flatMap_starts [Host σ] (rules : Rules) {hs : List (Happening n σ)}
    (h : ∀ x ∈ hs, ∃ i, x = .starts i) :
    (hs.filterMap Happening.occasion?).flatMap (happenings rules) = hs := by
  induction hs with
  | nil => rfl
  | cons x hs ih =>
    obtain ⟨⟨i, rfl⟩, hlater⟩ := List.forall_mem_cons.mp h
    have hcons : (Happening.starts i :: hs).filterMap Happening.occasion? =
      Occasion.starts i :: hs.filterMap Happening.occasion? := rfl
    rw [hcons, List.flatMap_cons, ih hlater]
    rfl

end Occasions

namespace Machine

variable {n : Nat} {σ : Type} [Host σ]

/-- The occasions of a pass. -/
def passOccasions (m : Machine n σ) (rules : Rules) (script : Script) (fuel : Nat) :
    List (Occasion n σ) :=
  (m.dispatches rules script fuel).map fun d => .dispatches ⟨script, fuel, d.1, d.2⟩

/-- The occasions when a room is entered. -/
def loadRoomOccasions (m : Machine n σ) (rules : Rules) (init room : Script) (fuel : Nat) :
    List (Occasion n σ) :=
  (m.reset.startHistory rules init 0 0).filterMap Happening.occasion? ++
    match m.reset.start rules init 0 0 with
    | (m, .ok ()) =>
      m.passOccasions rules init fuel ++
        match m.pass rules init fuel with
        | (m, .ok ()) => (m.startRoomHistory rules room).filterMap Happening.occasion?
        | _ => []
    | _ => []

/-! ### Tours -/

/-- **How a machine gets from one occasion to the next**: threads are started, threads that run are
dispatched, and nothing else but that threads are made idle. -/
inductive Tour (rules : Rules) : Machine n σ → List (Occasion n σ) → Machine n σ → Prop
  | done {m} : Tour rules m [] m
  | quiet {m m₁ m' os} (h : ∀ i, m₁.pool.thread i = m.pool.thread i ∨
      m₁.pool.thread i = (m.pool.thread i).halt) (rest : Tour rules m₁ os m') : Tour rules m os m'
  | starts {m m₁ m' os} (i : Fin n) (address : Nat)
      (h : m₁.pool = m.pool.modify i (·.activate address)) (rest : Tour rules m₁ os m') :
    Tour rules m (.starts i :: os) m'
  | dispatches {d m' os} (hrun : (d.machine.pool.thread d.thread).running = true)
      (rest : Tour rules (d.outcome rules).1 os m') :
    Tour rules d.machine (.dispatches d :: os) m'

variable {rules : Rules}

namespace Tour

variable {m m' m'' : Machine n σ} {os os' : List (Occasion n σ)}

/-- Nothing happens to the threads if the pool stays the same. -/
theorem of_pool (h : m'.pool = m.pool) : Tour rules m [] m' :=
  .quiet (fun i => .inl (by rw [h])) .done

theorem trans (h : Tour rules m os m') (h' : Tour rules m' os' m'') :
    Tour rules m (os ++ os') m'' := by
  induction h with
  | done => exact h'
  | quiet h _ ih => exact .quiet h (ih h')
  | starts i address h _ ih => exact .starts i address h (ih h')
  | dispatches hrun _ ih => exact .dispatches hrun (ih h')

/-- **A tour taken apart at a dispatch.** -/
theorem split (h : Tour rules m os m') {front back : List (Occasion n σ)} {d : Dispatch n σ}
    (hsplit : os = front ++ .dispatches d :: back) :
    Tour rules m front d.machine ∧ (d.machine.pool.thread d.thread).running = true ∧
      Tour rules (d.outcome rules).1 back m' := by
  -- on the tour: the dispatch is its first occasion, or it is in the rest
  induction h generalizing front with
  | done => exact absurd hsplit (by simp)
  | quiet h _ ih =>
    obtain ⟨hfront, hback⟩ := ih hsplit
    exact ⟨.quiet h hfront, hback⟩
  | starts i address h _ ih =>
    cases front with
    | nil => exact nomatch (List.cons.inj hsplit).1
    | cons x front =>
      obtain ⟨rfl, rfl⟩ := List.cons.inj hsplit
      obtain ⟨hfront, hback⟩ := ih rfl
      exact ⟨.starts i address h hfront, hback⟩
  | dispatches hrun rest ih =>
    cases front with
    | nil =>
      cases hsplit
      exact ⟨.done, hrun, rest⟩
    | cons x front =>
      obtain ⟨rfl, rfl⟩ := List.cons.inj hsplit
      obtain ⟨hfront, hback⟩ := ih rfl
      exact ⟨.dispatches hrun hfront, hback⟩

end Tour

/-! ### The tours of calls -/

theorem Passed.tour {script : Script} {fuel : Nat} {is : List (Fin n)} {m m' : Machine n σ}
    {ds : List (Fin n × Machine n σ)} {result : Except Stop Unit}
    (h : Passed rules script fuel is m ds m' result) :
    Tour rules m (ds.map fun d => .dispatches ⟨script, fuel, d.1, d.2⟩) m' := by
  induction h with
  | done => exact .done
  | skips _ _ ih => exact ih
  | @stops i _ m m' _ hrun hr =>
    have hrest : Tour rules (Dispatch.outcome ⟨script, fuel, i, m⟩ rules).1 [] m' := by
      rw [Dispatch.outcome, hr]
      exact .done
    exact .dispatches hrun hrest
  | @goesOn i is m m' ds m'' _ hrun hr _ ih =>
    have hrest : Tour rules (Dispatch.outcome ⟨script, fuel, i, m⟩ rules).1
        (ds.map fun d => .dispatches ⟨script, fuel, d.1, d.2⟩) m'' := by
      rw [Dispatch.outcome, hr]
      exact ih
    exact .dispatches hrun hrest

theorem tour_pass (m : Machine n σ) (rules : Rules) (script : Script) (fuel : Nat) :
    Tour rules m (m.passOccasions rules script fuel) (m.pass rules script fuel).1 :=
  (m.pass_passed rules script fuel).tour

theorem tour_start (m : Machine n σ) (rules : Rules) (script : Script) (thread entry : Nat) :
    Tour rules m ((m.startHistory rules script thread entry).filterMap Happening.occasion?)
      (m.start rules script thread entry).1 := by
  obtain ⟨f, hs⟩ | ⟨m', hlt, address, hs, -, hpool⟩ :=
    m.start_cases rules script thread entry <;> simp only [startHistory, hs]
  · exact .done
  · rw [dif_pos hlt]
    exact .starts ⟨thread, hlt⟩ address hpool .done

theorem tour_inject (m : Machine n σ) (rules : Rules) (script : Script) (raw : Bytes) :
    Tour rules m ((m.injectHistory rules script raw).filterMap Happening.occasion?)
      (m.inject rules script raw).1 := by
  obtain ⟨m', f, hi, hpool⟩ | ⟨m', i, index, address, hi, -, hpool⟩ :=
    m.inject_cases rules script raw <;> simp only [injectHistory, hi]
  · exact .of_pool hpool
  · exact .starts i address hpool .done

theorem tour_reset (m : Machine n σ) (rules : Rules) : Tour rules m [] m.reset :=
  .quiet (fun i => .inr (Pool.thread_halt _ i)) .done

theorem tour_startRoom (m : Machine n σ) (rules : Rules) (room : Script)
    (whenSingle : List Notice) :
    Tour rules m ((m.startRoomHistory rules room).filterMap Happening.occasion?)
      (m.startRoom rules room whenSingle).1 := by
  have hfirst := m.tour_start rules room 0 0
  unfold startRoomHistory startRoom
  rw [List.filterMap_append]
  rcases hs : m.start rules room 0 0 with ⟨m₁, f | ⟨⟩⟩ <;> rw [hs] at hfirst
  · exact hfirst.trans (.of_pool rfl)
  · refine hfirst.trans ?_
    simp only
    split
    · exact m₁.tour_start rules room 1 1
    · exact .of_pool rfl

theorem tour_loadRoom (m : Machine n σ) (rules : Rules) (init room : Script) (fuel : Nat) :
    Tour rules m (m.loadRoomOccasions rules init room fuel)
      (m.loadRoom rules init room fuel).1 := by
  have hinit := (m.tour_reset rules).trans (m.reset.tour_start rules init 0 0)
  -- a stage that fails is the last one
  unfold loadRoomOccasions loadRoom
  rcases hs : m.reset.start rules init 0 0 with ⟨m₁, f | ⟨⟩⟩ <;> rw [hs] at hinit
  · exact hinit.trans (.of_pool rfl)
  · refine hinit.trans ?_
    have hpass := m₁.tour_pass rules init fuel
    simp only
    rcases hp : m₁.pass rules init fuel with ⟨m₂, stop | ⟨⟩⟩ <;> rw [hp] at hpass
    · exact hpass.trans (.of_pool rfl)
    · have hroom := m₂.tour_startRoom rules room [.singleEntry]
      refine hpass.trans ?_
      simp only
      rcases hr : m₂.startRoom rules room [.singleEntry] with ⟨m₃, f | ⟨⟩⟩ <;> rw [hr] at hroom <;>
        exact hroom

/-! ### Courses -/

/-- **How a machine gets from one dispatch to the next**: threads that run are dispatched, threads
are started, and nothing else but that threads are made idle. -/
inductive Course (rules : Rules) : Machine n σ → List (Happening n σ) → Machine n σ → Prop
  | quiet {m m'} (h : ∀ i, m'.pool.thread i = m.pool.thread i ∨
      m'.pool.thread i = (m.pool.thread i).halt) : Course rules m [] m'
  | starts {m m'} (i : Fin n) (address : Nat)
      (h : m'.pool = m.pool.modify i (·.activate address)) : Course rules m [.starts i] m'
  | dispatches {m i} (script : Script) (fuel : Nat) (hrun : (m.pool.thread i).running = true) :
    Course rules m ((m.turns rules script fuel i).map .executes) (m.runThread rules script fuel i).1
  | trans {m m' m'' hs hs'} (h : Course rules m hs m') (h' : Course rules m' hs' m'') :
    Course rules m (hs ++ hs') m''

/-- What happens on the occasions of a tour. -/
theorem Tour.course {m m' : Machine n σ} {os : List (Occasion n σ)} (h : Tour rules m os m') :
    Course rules m (os.flatMap (Occasion.happenings rules)) m' := by
  induction h with
  | done => exact .quiet fun i => .inl rfl
  | quiet h _ ih => exact (Course.quiet h).trans ih
  | starts i address h _ ih => exact (Course.starts i address h).trans ih
  | @dispatches d _ _ hrun _ ih => exact (Course.dispatches d.script d.fuel hrun).trans ih

/-! ### Paths -/

/-- **How a machine gets from one happening to the next**: what happens, and nothing else but that
threads are made idle. -/
inductive Path (rules : Rules) : Machine n σ → List (Happening n σ) → Machine n σ → Prop
  | quiet {m m'} (h : ∀ i, m'.pool.thread i = m.pool.thread i ∨
      m'.pool.thread i = (m.pool.thread i).halt) : Path rules m [] m'
  | starts {m m'} (i : Fin n) (address : Nat)
      (h : m'.pool = m.pool.modify i (·.activate address)) : Path rules m [.starts i] m'
  | executes {m script i op raw} (hf : script.fetch (m.pool.thread i).pc = .ok (op, raw)) :
    Path rules m [.executes ⟨script, i, m, op, raw⟩] (m.turn rules script i op raw).1
  | trans {m m' m'' hs hs'} (h : Path rules m hs m') (h' : Path rules m' hs' m'') :
    Path rules m (hs ++ hs') m''

namespace Path

variable {m m' : Machine n σ}

/-- Nothing happens to the threads if the pool stays the same. -/
theorem of_pool (h : m'.pool = m.pool) : Path rules m [] m' := .quiet fun i => .inl (by rw [h])

end Path

theorem Dispatched.path {script : Script} {i : Fin n} {m m' : Machine n σ}
    {visits : List (Machine n σ)} {turns : List (Turn n σ)} {result : Except Stop Unit}
    (h : Dispatched rules script i m visits turns m' result) :
    Path rules m (turns.map .executes) m' := by
  induction h with
  | outOfFuel | unread | overBudget => exact .of_pool rfl
  | faults hf ht | yields hf ht =>
    have hpath : Path rules _ _ _ := .executes hf
    rwa [ht] at hpath
  | goesOn hf ht _ ih =>
    have hpath : Path rules _ _ _ := .executes hf
    rw [ht] at hpath
    exact hpath.trans ih

theorem path_runThread (m : Machine n σ) (rules : Rules) (script : Script) (fuel : Nat)
    (i : Fin n) :
    Path rules m ((m.turns rules script fuel i).map .executes)
      (m.runThread rules script fuel i).1 := by
  have hpath := (dispatch_dispatched rules script i (fuelFor rules fuel) 0 m).path
  -- a fault makes the thread idle, which no happening tells of
  have hidle : Path rules (dispatch rules script i (fuelFor rules fuel) 0 m).1 []
      (m.runThread rules script fuel i).1 := by
    have hpool := (m.runThread_eq rules script fuel i).2.2
    refine .quiet fun j => ?_
    rw [hpool]
    split
    · exact Pool.thread_modify_halt _ i j
    · exact .inl rfl
  have hboth := hpath.trans hidle
  rwa [List.append_nil] at hboth

/-- What is known dispatch by dispatch is known turn by turn. -/
theorem Course.path {m m' : Machine n σ} {hs : List (Happening n σ)} (h : Course rules m hs m') :
    Path rules m hs m' := by
  induction h with
  | quiet h => exact .quiet h
  | starts i address h => exact .starts i address h
  | dispatches script fuel _ => exact path_runThread _ _ script fuel _
  | trans _ _ ih ih' => exact ih.trans ih'

/-! ### What happens on the occasions of calls -/

theorem passHistory_eq (m : Machine n σ) (rules : Rules) (script : Script) (fuel : Nat) :
    m.passHistory rules script fuel =
      (m.passOccasions rules script fuel).flatMap (Occasion.happenings rules) := by
  rw [passOccasions, List.flatMap_map]
  rfl

theorem loadRoomHistory_eq (m : Machine n σ) (rules : Rules) (init room : Script) (fuel : Nat) :
    m.loadRoomHistory rules init room fuel =
      (m.loadRoomOccasions rules init room fuel).flatMap (Occasion.happenings rules) := by
  unfold loadRoomHistory loadRoomOccasions
  rw [List.flatMap_append, Occasion.flatMap_starts rules startHistory_starts]
  congr 1
  rcases m.reset.start rules init 0 0 with ⟨m₁, f | ⟨⟩⟩
  · rfl
  · simp only
    rw [List.flatMap_append, ← passHistory_eq]
    congr 1
    rcases m₁.pass rules init fuel with ⟨m₂, stop | ⟨⟩⟩
    · rfl
    · exact (Occasion.flatMap_starts rules startRoomHistory_starts).symm

end Machine

/-! ### Runs -/

namespace Engine

variable {n : Nat} {σ : Type} [Host σ]

/-- What happens in a call. -/
def happenings (e : Engine n σ) : Call σ → List (Happening n σ)
  | .start script thread entry => e.machine.startHistory e.rules script thread entry
  | .inject script raw => e.machine.injectHistory e.rules script raw
  | .pass script fuel => e.machine.passHistory e.rules script fuel
  | .advance script elapsed fuel =>
    if e.gathered + elapsed ≤ e.interval then [] else e.machine.passHistory e.rules script fuel
  | .loadRoom init room fuel => e.machine.loadRoomHistory e.rules init room fuel
  | .reset | .play _ => []

/-- **What happens in a run of calls.** -/
def history (e : Engine n σ) : List (Call σ) → List (Happening n σ)
  | [] => []
  | c :: calls => e.happenings c ++ (e.call c).history calls

/-- The occasions of a call. -/
def callOccasions (e : Engine n σ) : Call σ → List (Occasion n σ)
  | .pass script fuel => e.machine.passOccasions e.rules script fuel
  | .advance script elapsed fuel =>
    if e.gathered + elapsed ≤ e.interval then [] else e.machine.passOccasions e.rules script fuel
  | .loadRoom init room fuel => e.machine.loadRoomOccasions e.rules init room fuel
  -- without a pass, threads are started at most
  | c => (e.happenings c).filterMap Happening.occasion?

/-- **The occasions of a run of calls**: every start and every dispatch, in order. -/
def occasions (e : Engine n σ) : List (Call σ) → List (Occasion n σ)
  | [] => []
  | c :: calls => e.callOccasions c ++ (e.call c).occasions calls

theorem tour_call (e : Engine n σ) (c : Call σ) :
    Machine.Tour e.rules e.machine (e.callOccasions c) (e.call c).machine := by
  cases c with
  | start script thread entry => exact e.machine.tour_start e.rules script thread entry
  | inject script raw => exact e.machine.tour_inject e.rules script raw
  | pass script fuel => exact e.machine.tour_pass e.rules script fuel
  | advance script elapsed fuel =>
    have hpass := e.machine.tour_pass e.rules script fuel
    simp only [callOccasions, call, advance]
    split
    · exact .of_pool rfl
    · rcases hp : e.machine.pass e.rules script fuel with ⟨m, stop | ⟨⟩⟩ <;> rw [hp] at hpass <;>
        exact hpass
  | loadRoom init room fuel => exact e.machine.tour_loadRoom e.rules init room fuel
  | reset => exact e.machine.tour_reset e.rules
  | play host => exact .of_pool rfl

/-- **The occasions of a run lead from its start to its end.** -/
theorem tour_occasions (e : Engine n σ) (calls : List (Call σ)) :
    Machine.Tour e.rules e.machine (e.occasions calls) (e.run calls).machine := by
  induction calls generalizing e with
  | nil => exact .of_pool rfl
  | cons c calls ih =>
    have hlater := ih (e.call c)
    rw [rules_call] at hlater
    exact (e.tour_call c).trans hlater

theorem happenings_eq (e : Engine n σ) (c : Call σ) :
    e.happenings c = (e.callOccasions c).flatMap (Occasion.happenings e.rules) := by
  cases c with
  | start script thread entry =>
    exact (Occasion.flatMap_starts e.rules Machine.startHistory_starts).symm
  | inject script raw => exact (Occasion.flatMap_starts e.rules Machine.injectHistory_starts).symm
  | pass script fuel => exact e.machine.passHistory_eq e.rules script fuel
  | advance script elapsed fuel =>
    simp only [happenings, callOccasions]
    split
    · rfl
    · exact e.machine.passHistory_eq e.rules script fuel
  | loadRoom init room fuel => exact e.machine.loadRoomHistory_eq e.rules init room fuel
  | reset => rfl
  | play host => rfl

/-- **The history of a run is what happens at its occasions.** -/
theorem history_eq (e : Engine n σ) (calls : List (Call σ)) :
    e.history calls = (e.occasions calls).flatMap (Occasion.happenings e.rules) := by
  induction calls generalizing e with
  | nil => rfl
  | cons c calls ih => rw [history, occasions, List.flatMap_append, happenings_eq, ih, rules_call]

/-- **The history of a run leads from its start to its end**, dispatch by dispatch. -/
theorem course_history (e : Engine n σ) (calls : List (Call σ)) :
    Machine.Course e.rules e.machine (e.history calls) (e.run calls).machine := by
  rw [history_eq]
  exact (e.tour_occasions calls).course

/-- **The history of a run leads from its start to its end**, turn by turn. -/
theorem path_history (e : Engine n σ) (calls : List (Call σ)) :
    Machine.Path e.rules e.machine (e.history calls) (e.run calls).machine :=
  (e.course_history calls).path

end Engine

end RoomScript
