import RoomScript.Interpreter.Handlers

/-!
# The machine

A machine is a pool of threads in a host, with what it has had to say so far. One *turn* of a thread
executes the instruction it stands on and, if a condition failed, goes on to the end of the
innermost if block. *Dispatching* a thread gives it turns until it yields; a *pass* dispatches every
running thread once, in order.

Turns are total functions, but a script can keep a thread busy for ever. So dispatching takes fuel,
and running out of it is an outcome of its own, told apart from every fault of the script. A budget
is a different thing: a rule of the machine that stops a thread with a fault, and under which the
fuel always suffices.
-/

namespace RoomScript

/-- The rules a machine runs by. -/
structure Rules where
  /-- What executes each opcode. -/
  handlers : Handlers := Handler.standard
  /-- The instructions a thread may execute in one pass; without a budget there is no bound. -/
  budget : Option Nat := none
  /-- The kinds of notices that are kept. -/
  traces : TraceSet := {}

/-- Why a pass did not come to its end. -/
inductive Stop
  /-- A thread ran into a fault. -/
  | fault (cause : Fault)
  /-- A thread did not yield for as long as it was watched. -/
  | outOfFuel
  deriving DecidableEq, Repr

/-- A pool of `n` threads in a host. -/
structure Machine (n : Nat) (σ : Type) where
  pool : Pool n
  host : σ
  /-- What was said so far, the oldest first. -/
  log : Array Notice := #[]

namespace Machine

variable {n : Nat} {σ : Type}

/-- Idle threads in a host. -/
def idle (n : Nat) (host : σ) : Machine n σ :=
  { pool := .idle n, host := host }

/-- The thread at a place of the pool. -/
def thread (m : Machine n σ) (i : Nat) : Except Fault Thread :=
  if h : i < n then .ok (m.pool.thread ⟨i, h⟩) else .error (.invalidThread i)

/-- Changes one thread. -/
def modify (m : Machine n σ) (i : Fin n) (f : Thread → Thread) : Machine n σ :=
  { m with pool := m.pool.modify i f }

/-- Keeps the notices that are shown. -/
def say (m : Machine n σ) (traces : TraceSet) (notices : List Notice) : Machine n σ :=
  { m with log := m.log ++ notices.filter (·.shown traces) }

/-- Carries out writes in order. -/
def perform [Host σ] (m : Machine n σ) (traces : TraceSet) : List Write → Machine n σ
  | [] => m
  | w :: ws =>
    let (host, notices) := Host.perform m.host w
    (({ m with host := host } : Machine n σ).say traces notices).perform traces ws

/-! ### One turn of a thread -/

/-- Lets the handler of an opcode react to an instruction, and carries out the writes it asks for.
-/
def react [Host σ] (m : Machine n σ) (rules : Rules) (script : Script) (i : Fin n) (op : Opcode)
    (raw : Bytes) : Machine n σ × Except Fault Flow :=
  let r := (rules.handlers op).run ⟨script, m.pool, i⟩ (Host.view m.host) raw
  ((({ m with pool := r.pool } : Machine n σ).say rules.traces r.notices).perform
    rules.traces r.writes, r.result)

/-- Executes an instruction, and steps over it unless it has placed the address itself. -/
def execute [Host σ] (m : Machine n σ) (rules : Rules) (script : Script) (i : Fin n) (op : Opcode)
    (raw : Bytes) : Machine n σ × Except Fault Flow :=
  let m := m.say rules.traces [.executing i (m.pool.thread i).pc op]
  -- Whether the address was placed is asked of this instruction alone.
  let m := m.modify i fun t => { t with overridden := false }
  match m.react rules script i op raw with
  | (m, .ok flow) => (m.modify i fun t => t.moveOn op.size, .ok flow)
  | (m, .error f) => (m, .error f)

/-- What a thread does after a turn. -/
inductive Pulse
  /-- It goes on. -/
  | running
  /-- It waits for the next pass. -/
  | yielded
  deriving DecidableEq, Repr

/-- Follows the flow out of an instruction. A condition that failed goes on where the innermost if
block ends, or yields if there is none open. -/
def follow (m : Machine n σ) (rules : Rules) (i : Fin n) (flow : Flow) :
    Machine n σ × Except Fault Pulse :=
  match flow with
  | .next => (m, .ok .running)
  | .halt => (m, .ok .yielded)
  | .unwind =>
    if (m.pool.thread i).level.ifCounter < 0 then (m, .ok .yielded)
    else
      match (m.pool.thread i).popBlock with
      | (t, .error f) => (m.modify i fun _ => t, .error f)
      | (t, .ok resume) =>
        ((m.modify i fun _ => { t with pc := resume }).say rules.traces [.blockLeft t.id resume],
          .ok .running)

/-- Executes an instruction and follows the flow out of it. -/
def turn [Host σ] (m : Machine n σ) (rules : Rules) (script : Script) (i : Fin n) (op : Opcode)
    (raw : Bytes) : Machine n σ × Except Fault Pulse :=
  match m.execute rules script i op raw with
  | (m, .ok flow) => m.follow rules i flow
  | (m, .error f) => (m, .error f)

/-! ### Dispatching -/

/-- The fault of a thread that has executed as many instructions as it may. -/
def overBudget? (rules : Rules) (thread executed : Nat) : Option Fault :=
  match rules.budget with
  | some budget => if budget ≤ executed then some (.budgetExceeded thread budget) else none
  | none => none

/-- Gives a thread turns until it yields or faults. The instruction is fetched before the budget is
looked at. -/
def dispatch [Host σ] (rules : Rules) (script : Script) (i : Fin n) :
    (fuel executed : Nat) → Machine n σ → Machine n σ × Except Stop Unit
  | 0, _, m => (m, .error .outOfFuel)
  | fuel + 1, executed, m =>
    match script.fetch (m.pool.thread i).pc with
    | .error f => (m, .error (.fault f))
    | .ok (op, raw) =>
      -- A thread over its budget on a broken instruction is stopped for the instruction.
      match overBudget? rules i executed with
      | some f => (m, .error (.fault f))
      | none =>
        match m.turn rules script i op raw with
        | (m, .error f) => (m, .error (.fault f))
        | (m, .ok .yielded) => (m, .ok ())
        | (m, .ok .running) => dispatch rules script i fuel (executed + 1) m

/-- The fuel a dispatch gets: a budget never needs more than one turn beyond it. -/
def fuelFor (rules : Rules) (fuel : Nat) : Nat :=
  match rules.budget with
  | some budget => budget + 1
  | none => fuel

/-- Dispatches a thread. A fault makes the thread idle. -/
def runThread [Host σ] (m : Machine n σ) (rules : Rules) (script : Script) (fuel : Nat)
    (i : Fin n) : Machine n σ × Except Stop Unit :=
  match dispatch rules script i (fuelFor rules fuel) 0 m with
  | (m, .error (.fault f)) =>
    ((m.modify i Thread.halt).say rules.traces [.halted i f], .error (.fault f))
  | outcome => outcome

/-- Dispatches the running ones among given threads, one after another, up to the first that does
not yield. -/
def runThreads [Host σ] (rules : Rules) (script : Script) (fuel : Nat) :
    List (Fin n) → Machine n σ → Machine n σ × Except Stop Unit
  | [], m => (m, .ok ())
  | i :: rest, m =>
    -- A thread started in this pass is dispatched in it if its turn is still to come.
    if (m.pool.thread i).running then
      match m.runThread rules script fuel i with
      | (m, .ok ()) => runThreads rules script fuel rest m
      | stopped => stopped
    else runThreads rules script fuel rest m

/-- One pass: every running thread is dispatched once, in the order of the pool. -/
def pass [Host σ] (m : Machine n σ) (rules : Rules) (script : Script) (fuel : Nat) :
    Machine n σ × Except Stop Unit :=
  runThreads rules script fuel (List.finRange n) m

/-! ### Starting threads -/

/-- Makes every thread idle. -/
def reset (m : Machine n σ) : Machine n σ := { m with pool := m.pool.halt }

/-- Starts a thread at an entry point. -/
def start (m : Machine n σ) (rules : Rules) (script : Script) (thread entry : Nat) :
    Machine n σ × Except Fault Unit :=
  match script.entry entry with
  | .error f => (m, .error f)
  | .ok address =>
    if h : thread < n then
      ((m.modify ⟨thread, h⟩ (·.activate address)).say rules.traces
        [.initialised thread entry address], .ok ())
    else (m, .error (.invalidThread thread))

/-- Carries out one event instruction on behalf of the game, and tells which thread took the event.
-/
def inject (m : Machine n σ) (rules : Rules) (script : Script) (raw : Bytes) :
    Machine n σ × Except Fault (Fin n) :=
  match raw[0]? with
  | some byte =>
    if byte = Opcode.evtExec.toByte then startEvent
    else (m, .error (.unknownOpcode byte 0))
  | none => startEvent
where
  /-- Reads the instruction and schedules its event. -/
  startEvent : Machine n σ × Except Fault (Fin n) :=
    match Payload.decodeAt Payload.EvtExec raw 0 with
    | .error f => (m, .error f)
    | .ok p =>
      let scheduled := Control.schedule script m.pool p
      match scheduled.result with
      | .ok (i, pool) =>
        (({ m with pool := pool } : Machine n σ).say rules.traces scheduled.notices, .ok i)
      | .error f => (m.say rules.traces scheduled.notices, .error f)

/-- Starts the threads of a room: the first at the first entry point, the second at the second one
if the room has it. -/
def startRoom (m : Machine n σ) (rules : Rules) (room : Script) (whenSingle : List Notice) :
    Machine n σ × Except Fault Unit :=
  match m.start rules room 0 0 with
  | (m, .error f) => (m, .error f)
  | (m, .ok ()) =>
    if 1 < room.entries.length then m.start rules room 1 1
    else (m.say rules.traces whenSingle, .ok ())

/-- Enters a room: everything is made idle, the room's initial script gets one pass on the first
thread, and then the room's own threads are started. -/
def loadRoom [Host σ] (m : Machine n σ) (rules : Rules) (init room : Script) (fuel : Nat) :
    Machine n σ × Except Stop Unit :=
  match m.reset.start rules init 0 0 with
  | (m, .error f) => (m, .error (.fault f))
  | (m, .ok ()) =>
    match m.pass rules init fuel with
    | (m, .error stop) => (m, .error stop)
    | (m, .ok ()) =>
      match m.startRoom rules room [.singleEntry] with
      | (m, .error f) => (m, .error (.fault f))
      | (m, .ok ()) => (m, .ok ())

end Machine

end RoomScript
