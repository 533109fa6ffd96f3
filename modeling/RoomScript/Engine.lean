import RoomScript.Machine

/-!
# The engine

A machine that runs at a fixed rate: time is added up, and once more than a tick has gathered, the
machine makes one pass and the time starts over.
-/

namespace RoomScript

/-- The size of the pool if nothing else is asked for. -/
def Config.defaultThreadCount : Nat := 20

/-- The time between passes if nothing else is asked for, in seconds. -/
def Config.defaultInterval : Float := 1.0 / 30.0

/-- How an engine is set up. -/
structure Config where
  /-- The size of the pool. -/
  threadCount : Nat := Config.defaultThreadCount
  /-- Passes per second. -/
  ticksPerSecond : Float := 30.0
  /-- The instructions a thread may execute in one pass. -/
  budget : Option Nat := none
  /-- The least severity that a program using the engine reports; nothing is reported without one.
  -/
  level : Option Severity := some .info

/-- The time between passes, in seconds. -/
def Config.interval (c : Config) : Float := 1.0 / c.ticksPerSecond

/-- A machine with a clock. -/
structure Engine (n : Nat) (σ : Type) where
  machine : Machine n σ
  rules : Rules := {}
  /-- The time between passes. -/
  interval : Float
  /-- The time gathered since the last pass. -/
  gathered : Float := 0.0

namespace Engine

variable {n : Nat} {σ : Type}

/-- The engine of a configuration, with every thread idle. -/
def ofConfig (c : Config) (traces : TraceSet) (host : σ) : Engine c.threadCount σ :=
  { machine := .idle c.threadCount host
    rules := { budget := c.budget, traces := traces }
    interval := c.interval }

/-- Adds time, and makes a pass once more than a tick has gathered; tells whether it did. The clock
starts over before the pass. -/
def advance [Host σ] (e : Engine n σ) (script : Script) (elapsed : Float) (fuel : Nat) :
    Engine n σ × Except Stop Bool :=
  let gathered := e.gathered + elapsed
  -- Time that is not a number is not below the interval, and makes a pass.
  if gathered ≤ e.interval then ({ e with gathered := gathered }, .ok false)
  else
    match e.machine.pass e.rules script fuel with
    | (m, .ok ()) => ({ e with machine := m, gathered := 0.0 }, .ok true)
    | (m, .error stop) => ({ e with machine := m, gathered := 0.0 }, .error stop)

end Engine

end RoomScript
