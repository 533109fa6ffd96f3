import RoomScript.Engine
import RoomScript.Json.Parser
import RoomScript.Record.Form

/-!
# Records of the configuration

An engine's configuration is a JSON text in which everything may be left out, except that a logger
has to say its level.
-/

namespace RoomScript

open Fields

/-- The levels of a logger; there is one that reports nothing. -/
def levels : List (Option Severity) :=
  [none, some .error, some .warn, some .info, some .debug, some .trace]

/-- The name of a level. -/
def levelName : Option Severity → String
  | none => "OFF"
  | some severity => severity.name

/-- The level of a name in upper or lower case letters. -/
def levelOfName? (name : String) : Option (Option Severity) :=
  let upper := name.toList.map Char.toUpper
  levels.find? fun level => (levelName level).toList = upper

/-- The form of a level: its name. -/
def levelForm : Form (Option Severity) := .choice levelName levelOfName?

/-- The part of the configuration that a program's logger looks at. -/
structure Logger where
  level : Option Severity := some .info

def Logger.form : Form Logger := .record (Logger.mk <$> one "level_filter" (·.level) levelForm)

/-- A rate, given as any number. Rates are never written. -/
def rateForm : Form Float where
  toDoc _ := .null
  ofJson?
    | .number numeral => numeral.toFloat?
    | _ => none

/-- A value that may be null. -/
def nullable (form : Form α) : Form (Option α) where
  toDoc
    | some a => form.toDoc a
    | none => .null
  ofJson?
    | .null => some none
    | json => (form.ofJson? json).map some

/-- The configuration that a JSON value stands for. -/
def Config.ofJson? (json : Json) : Option Config :=
  let defaults : Config := {}
  let form : Form Config := .record
    ((fun threads rate budget (logger : Logger) => Config.mk threads rate budget logger.level)
      <$> orElse "thread_count" (·.threadCount) .size defaults.threadCount
      <*> orElse "ticks_per_second" (·.ticksPerSecond) rateForm defaults.ticksPerSecond
      <*> orElse "instruction_budget" (·.budget) (nullable .size) defaults.budget
      <*> orElse "logger" (fun c => ⟨c.level⟩) Logger.form ⟨defaults.level⟩)
  form.ofJson? json

/-- The configuration that the bytes of a text stand for. -/
def Config.ofBytes? (bytes : Bytes) : Option Config :=
  (Json.parse? bytes.toList).bind Config.ofJson?

end RoomScript
