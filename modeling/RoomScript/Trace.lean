import RoomScript.Text.Blank

/-!
# Trace settings

Three kinds of trace can be switched on from outside: every instruction, the control flow, and every
call to the host. The settings are texts: a list of kinds in one, and a switch for each kind.
-/

namespace RoomScript

/-- The kinds of trace. -/
inductive TraceKind
  /-- Every instruction that is executed. -/
  | vm
  /-- Blocks, loops and subroutines entered and left. -/
  | flow
  /-- Every call to the host. -/
  | host
  deriving DecidableEq, Repr

/-- The kinds of trace that are on. -/
structure TraceSet where
  vm : Bool := false
  flow : Bool := false
  host : Bool := false
  deriving DecidableEq, Repr, Inhabited

namespace TraceSet

/-- Every kind. -/
def all : TraceSet := ⟨true, true, true⟩

/-- The kinds that are on in one of two sets. -/
def union (a b : TraceSet) : TraceSet := ⟨a.vm || b.vm, a.flow || b.flow, a.host || b.host⟩

/-- Whether a kind is on. -/
def enabled (s : TraceSet) : TraceKind → Bool
  | .vm => s.vm
  | .flow => s.flow
  | .host => s.host

/-- The kinds one word of a list switches on; unknown words do nothing. -/
def ofWord (word : List Char) : TraceSet :=
  match String.ofList (Text.lower (Text.trim word)) with
  | "all" => all
  | "vm" => { vm := true }
  | "flow" => { flow := true }
  | "host" => { host := true }
  | _ => {}

/-- The kinds a list switches on, its words divided by commas, semicolons or white space. -/
def ofListText (text : String) : TraceSet :=
  let divides (c : Char) := c == ',' || c == ';' || Text.isBlank c
  ((Text.splitWhere divides text.toList).map ofWord).foldl union {}

/-- Whether the text of a switch means on: anything but nothing, zero, false, no and off. -/
def isOn (text : String) : Bool :=
  let word := String.ofList (Text.lower (Text.trim text.toList))
  !(["", "0", "false", "no", "off"].contains word)

/-- The names of the settings. -/
def settingNames : List String := ["RDT_TRACE", "RDT_TRACE_VM", "RDT_TRACE_FLOW", "RDT_TRACE_HOST"]

/-- The kinds that the settings, looked up by name, switch on. -/
def ofSettings (setting : String → Option String) : TraceSet :=
  let listed := ((setting "RDT_TRACE").map ofListText).getD {}
  let switched (name : String) := ((setting name).map isOn).getD false
  listed.union ⟨switched "RDT_TRACE_VM", switched "RDT_TRACE_FLOW", switched "RDT_TRACE_HOST"⟩

end TraceSet

end RoomScript
