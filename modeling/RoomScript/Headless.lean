import RoomScript.Engine
import RoomScript.Record.State
import RoomScript.Session

/-!
# Headless runs

A room script run on its own for a number of ticks, in a fresh session. The run ends early once
every thread is idle, since nothing can happen after that.
-/

namespace RoomScript.Headless

/-- What a run leaves behind. -/
structure Report where
  /-- The ticks it took. -/
  ticks : Nat
  /-- The threads still running. -/
  running : List Thread
  stage : Stage

/-- Why a run has no report. -/
inductive RunError
  /-- The threads could not be started. -/
  | atStart (stop : Stop)
  /-- A pass did not come to its end. -/
  | atTick (tick : Nat) (stop : Stop)

/-- The wording of a stop. -/
def stopMessage : Stop → String
  | .fault cause => cause.message
  | .outOfFuel => "the script does not yield"

/-- The wording of a run's error, the outermost part first. -/
def RunError.messages : RunError → List String
  | .atStart stop => [stopMessage stop]
  | .atTick tick stop => [s!"tick {tick}", stopMessage stop]

variable {n : Nat}

/-- The report of a machine after some ticks. -/
def report (m : Machine n Stage) (ticks : Nat) : Report := ⟨ticks, m.pool.running, m.host⟩

/-- Makes up to `left` more passes after `done` ones, and stops early once every thread is idle. -/
def ticksFrom (rules : Rules) (room : Script) (fuel : Nat) :
    (left done : Nat) → Machine n Stage → Machine n Stage × Except RunError Report
  | 0, done, m => (m, .ok (report m done))
  | left + 1, done, m =>
    match m.pass rules room fuel with
    | (m, .error stop) => (m, .error (.atTick done stop))
    | (m, .ok ()) =>
      if m.pool.running.isEmpty then
        (m.say rules.traces [.allIdle (done + 1)], .ok (report m (done + 1)))
      else ticksFrom rules room fuel left (done + 1) m

/-- Starts the threads of a room, after its initial script if there is one. -/
def seed (m : Machine n Stage) (rules : Rules) (init? : Option Script) (room : Script)
    (fuel : Nat) : Machine n Stage × Except Stop Unit :=
  match init? with
  | some init => m.loadRoom rules init room fuel
  | none =>
    match m.startRoom rules room [] with
    | (m, .ok ()) => (m, .ok ())
    | (m, .error f) => (m, .error (.fault f))

/-- Runs a room, and gives what was said on the way with the report. -/
def run (config : Config) (traces : TraceSet) (init? : Option Script) (room : Script)
    (ticks fuel : Nat) : Array Notice × Except RunError Report :=
  let engine := Engine.ofConfig config traces ({} : Stage)
  match seed engine.machine engine.rules init? room fuel with
  | (m, .error stop) => (m.log, .error (.atStart stop))
  | (m, .ok ()) =>
    let (m, outcome) := ticksFrom engine.rules room fuel ticks 0 m
    (m.log, outcome)

/-- A report as a document. -/
def Report.toDoc (r : Report) : Doc := .record
  [("ticks", .int r.ticks), ("running", .list (r.running.map Thread.toDoc)),
    ("session", Session.form.toDoc r.stage.session), ("scene", Scene.form.toDoc r.stage.scene)]

end RoomScript.Headless
