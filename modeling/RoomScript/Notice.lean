import RoomScript.Payload.Stage
import RoomScript.Payload.Zone
import RoomScript.Thread
import RoomScript.Trace

/-!
# Notices

What a run has to say besides its results. A notice is an event of the run with the values it speaks
of; its severity, the kind of trace it belongs to and its wording are functions of it.
-/

namespace RoomScript

/-- How much a notice matters. -/
inductive Severity
  | error
  | warn
  | info
  | debug
  | trace
  deriving DecidableEq, Repr

/-- The name of a severity. -/
def Severity.name : Severity → String
  | .error => "ERROR"
  | .warn => "WARN"
  | .info => "INFO"
  | .debug => "DEBUG"
  | .trace => "TRACE"

/-- The place of a severity among them, the gravest first. -/
def Severity.rank : Severity → Nat
  | .error => 0
  | .warn => 1
  | .info => 2
  | .debug => 3
  | .trace => 4

/-- Whether a severity is as grave as another, or graver. -/
def Severity.atLeast (s least : Severity) : Bool := s.rank ≤ least.rank

open Payload

/-- Events of a run that are worth a line. -/
inductive Notice
  /-- An instruction is about to be executed. -/
  | executing (thread pc : Nat) (op : Opcode)
  | returned (thread pc level : Nat)
  | ended (thread : Nat)
  | ifOpened (thread resume : Nat)
  | blockLeft (thread resume : Nat)
  | switched (thread : Nat) (var : UInt8) (value : Int32) (target : Nat)
  | gotoIgnored (thread : Nat) (offset : Int16)
  | called (thread : Nat) (event : UInt8) (target level : Nat)
  | cameraChanged (camera : UInt8)
  | zoneRegistered (zone : AotSet)
  | doorRegistered (door : DoorSet)
  | itemRegistered (item : ItemSet)
  | modelPlaced (index : UInt8)
  | playerMoved (x y z : Int16)
  | moveIgnored (target : Target)
  | memberIgnored (member : UInt8) (target : Target)
  | collisionRemoved (id : UInt8)
  | spriteAdded (id : UInt8)
  /-- A comparison used an operator that does not exist. -/
  | unknownRelation (operation : UInt8)
  /-- An event found every thread busy. -/
  | noIdleThread (event : UInt8)
  | eventStarted (thread address : Nat) (event : UInt8)
  | initialised (thread entry address : Nat)
  /-- A room has no second entry point. -/
  | singleEntry
  | halted (thread : Nat) (fault : Fault)
  /-- A model was turned before it was placed. -/
  | unplacedModel (index : UInt8)
  /-- The listing of an entry point ended on a fault. -/
  | listingFault (entry : Nat) (fault : Fault)
  | allIdle (ticks : Nat)
  /-- The script in a file was listed. -/
  | listed (path : String) (entries size : Nat)

namespace Notice

/-- The kind of trace a notice belongs to; the others are always shown. -/
def kind? : Notice → Option TraceKind
  | .executing .. => some .vm
  | .returned .. | .ended .. | .ifOpened .. | .blockLeft .. | .switched .. | .gotoIgnored ..
  | .called .. => some .flow
  | .cameraChanged .. | .zoneRegistered .. | .doorRegistered .. | .itemRegistered ..
  | .modelPlaced .. | .playerMoved .. | .moveIgnored .. | .memberIgnored .. | .collisionRemoved ..
  | .spriteAdded .. => some .host
  | _ => none

/-- Whether a notice is shown. -/
def shown (traces : TraceSet) (n : Notice) : Bool :=
  match n.kind? with
  | some kind => traces.enabled kind
  | none => true

/-- How much a notice matters. -/
def severity : Notice → Severity
  | .unknownRelation .. | .noIdleThread .. | .listingFault .. => .warn
  | .eventStarted .. | .initialised .. | .singleEntry | .unplacedModel .. => .debug
  | .halted .. => .error
  | _ => .info

/-! ### Wording -/

/-- A record with its name and its fields. -/
private def recordText (name : String) (fields : List (String × String)) : String :=
  name ++ " \x7b " ++ ", ".intercalate (fields.map fun (k, v) => k ++ ": " ++ v) ++ " \x7d"

/-- Numbers between brackets. -/
private def numbers [ToString α] (xs : List α) : String := Text.bracketed (xs.map toString)

private def headerText (h : ZoneHeader) : String :=
  recordText "AotHeader" [("aot", toString h.aot), ("sce", toString h.sce), ("sat", toString h.sat),
    ("floor", toString h.floor), ("super_", toString h.super)]

private def zoneText : Zone → String
  | .rect x z w d => recordText "Rect" [("x", toString x), ("z", toString z), ("w", toString w),
      ("d", toString d)]
  | .quad points => "Quad(" ++ Text.bracketed (points.toList.map (numbers ·.toList)) ++ ")"

private def triggerText (p : AotSet) : String :=
  recordText "AotSet" [("header", headerText p.header), ("zone", zoneText p.zone),
    ("data", numbers p.data.toList)]

private def doorText (p : DoorSet) : String :=
  let d := p.door
  recordText "DoorAotSet" [("header", headerText p.header), ("zone", zoneText p.zone),
    ("door", recordText "DoorDestination" [("position", numbers d.position.toList),
      ("dir", toString d.dir), ("stage", toString d.stage), ("room", toString d.room),
      ("camera", toString d.camera), ("floor", toString d.floor), ("texture", toString d.texture),
      ("door_type", toString d.doorType), ("knock", toString d.knock),
      ("key_id", toString d.keyId), ("key_type", toString d.keyType), ("free", toString d.free)])]

private def itemText (p : ItemSet) : String :=
  let i := p.item
  recordText "ItemAotSet" [("header", headerText p.header), ("zone", zoneText p.zone),
    ("item", recordText "ItemPickup" [("item_id", toString i.itemId), ("amount", toString i.amount),
      ("flag", toString i.flag), ("md1", toString i.md1), ("action", toString i.action)])]

/-- A number with its sign, a plus too. -/
private def signedText (v : Int16) : String := if v < 0 then toString v else s!"+{v}"

private def addressText (n : Nat) : String := "0x" ++ Text.hex n

/-- The wording of a notice. -/
def message : Notice → String
  | .executing thread pc op => s!"thread {thread} 0x" ++ Text.hexPadded 4 pc ++ ": " ++ op.mnemonic
  | .returned thread pc level =>
    s!"thread {thread}: return to " ++ addressText pc ++ s!" (level {level})"
  | .ended thread => s!"thread {thread}: end"
  | .ifOpened thread resume => s!"thread {thread}: if, end at " ++ addressText resume
  | .blockLeft thread resume => s!"thread {thread}: leave block, resume at " ++ addressText resume
  | .switched thread var value target =>
    s!"thread {thread}: switch var {var} = {value} -> " ++ addressText target
  | .gotoIgnored thread offset => s!"thread {thread}: goto " ++ signedText offset ++ " ignored"
  | .called thread event target level =>
    s!"thread {thread}: gosub {event} at " ++ addressText target ++ s!" (level {level})"
  | .cameraChanged camera => s!"change_camera {camera}"
  | .zoneRegistered zone => "register_aot " ++ triggerText zone
  | .doorRegistered door => "register_door " ++ doorText door
  | .itemRegistered item => "register_item " ++ itemText item
  | .modelPlaced index => s!"set_item_entity {index}"
  | .playerMoved x y z => "set_player_position " ++ numbers [x, y, z]
  | .moveIgnored target => "pos_set on " ++ target.text ++ " unsupported, ignored"
  | .memberIgnored member target =>
    s!"member_set {member} on " ++ target.text ++ " unsupported, ignored"
  | .collisionRemoved id => s!"remove_collision_entity {id}"
  | .spriteAdded id => s!"add_sprite {id}"
  | .unknownRelation operation => s!"compare: unknown operator {operation}, treated as true"
  | .noIdleThread event => s!"no idle script thread for event {event}, preempting thread 0"
  | .eventStarted thread address event =>
    s!"thread {thread} activated at " ++ addressText address ++ s!" for event {event}"
  | .initialised thread entry address =>
    s!"thread {thread} initialised at entry {entry} (" ++ addressText address ++ ")"
  | .singleEntry => "room script has a single entry, event thread left idle"
  | .halted thread fault => s!"script thread {thread} halted: " ++ fault.message
  | .unplacedModel index => s!"rotation set on unplaced model {index}"
  | .listingFault entry fault => s!"entry {entry}: " ++ fault.message
  | .allIdle ticks => s!"every script thread is idle after {ticks} ticks"
  | .listed path entries size => path ++ s!": {entries} entries, {size} bytes"

/-- A notice as a line, its severity first. -/
def line (n : Notice) : String := n.severity.name ++ " " ++ n.message

end Notice

end RoomScript
