import RoomScript.Payload.Basic

/-!
# Payloads that register trigger zones

Plain triggers, doors and item pickups. Each has an instruction for a rectangle and one for a
quadrilateral of four points; the two share a payload type, and the opcode selects the form of the
zone.
-/

namespace RoomScript.Payload

open Layout

/-- What every registration starts with. -/
structure ZoneHeader where
  aot : UInt8
  sce : UInt8
  sat : UInt8
  floor : UInt8
  super : UInt8
  deriving DecidableEq, Repr

/-- The layout of a registration's header. -/
def ZoneHeader.layout : Layout ZoneHeader := ZoneHeader.mk <$> u8 <*> u8 <*> u8 <*> u8 <*> u8

/-- A point of the floor plan. -/
abbrev Point := Vector Int16 2

/-- The area of the floor plan that triggers. -/
inductive Zone
  | rect (x z : Int16) (w d : UInt16)
  | quad (points : Vector Point 4)
  deriving DecidableEq, Repr

/-- The opcodes that register a zone by its four points. -/
def fourPoint : Opcode → Bool
  | .aotSet4p | .doorAotSet4p | .itemAotSet4p => true
  | _ => false

/-- The layout of a zone behind a given opcode. -/
def Zone.layout (op : Opcode) : Layout Zone :=
  if fourPoint op then Zone.quad <$> vector 4 (vector 2 i16)
  else Zone.rect <$> i16 <*> i16 <*> u16 <*> u16

/-- A zone as an operand. -/
def Zone.text : Zone → String
  | .rect x z w d =>
    "rect=" ++ Text.bracketed [toString x, toString z, toString w, toString d]
  | .quad points =>
    "quad=" ++ Text.bracketed (points.toList.map fun p => Text.bracketed (p.toList.map toString))

/-- Registers a plain trigger. -/
structure AotSet where
  header : ZoneHeader
  zone : Zone
  data : Vector UInt8 6
  deriving DecidableEq, Repr

/-- Six bytes as text. -/
def dataText (data : Vector UInt8 6) : String := Text.bracketed (data.toList.map toString)

instance : Payload AotSet where
  layout op := AotSet.mk <$> ZoneHeader.layout <*> Zone.layout op <*> vector 6 u8
  operands p := [s!"aot={p.header.aot}", s!"sce={p.header.sce}", p.zone.text,
    "data=" ++ dataText p.data]

/-- The kind of a trigger that starts a script event when the player walks in. -/
def AotSet.eventKind : UInt8 := 5

/-- The instruction an event trigger fires, its first data byte being the thread and its fourth the
event; other triggers fire none. -/
def AotSet.eventTrigger (p : AotSet) : Option Bytes :=
  if p.header.sce = AotSet.eventKind then
    some #[Opcode.evtExec.toByte, p.data[0], 0, p.data[3]]
  else none

/-- Where a door leads, and how it opens. -/
structure DoorDestination where
  position : Vector Int16 3
  dir : Int16
  stage : UInt8
  room : UInt8
  camera : UInt8
  floor : UInt8
  texture : UInt8
  doorType : UInt8
  knock : UInt8
  keyId : UInt8
  keyType : UInt8
  free : UInt8
  deriving DecidableEq, Repr

/-- Registers a door. -/
structure DoorSet where
  header : ZoneHeader
  zone : Zone
  door : DoorDestination
  deriving DecidableEq, Repr

/-- The layout of a door's destination. -/
def DoorDestination.layout : Layout DoorDestination :=
  DoorDestination.mk <$> vector 3 i16 <*> i16 <*> u8 <*> u8 <*> u8 <*> u8 <*> u8 <*> u8 <*> u8
    <*> u8 <*> u8 <*> u8

instance : Payload DoorSet where
  layout op := DoorSet.mk <$> ZoneHeader.layout <*> Zone.layout op <*> DoorDestination.layout
  operands p := [s!"aot={p.header.aot}", p.zone.text, s!"stage={p.door.stage}",
    "room=" ++ Text.hexByte p.door.room, s!"camera={p.door.camera}"]

/-- What a pickup holds. -/
structure ItemPickup where
  itemId : UInt16
  amount : UInt16
  flag : UInt16
  md1 : UInt8
  action : UInt8
  deriving DecidableEq, Repr

/-- Registers an item pickup. -/
structure ItemSet where
  header : ZoneHeader
  zone : Zone
  item : ItemPickup
  deriving DecidableEq, Repr

/-- The layout of a pickup. -/
def ItemPickup.layout : Layout ItemPickup := ItemPickup.mk <$> u16 <*> u16 <*> u16 <*> u8 <*> u8

instance : Payload ItemSet where
  layout op := ItemSet.mk <$> ZoneHeader.layout <*> Zone.layout op <*> ItemPickup.layout
  operands p := [s!"aot={p.header.aot}", p.zone.text, s!"item={p.item.itemId}",
    s!"amount={p.item.amount}"]

/-- Changes the kind and data of a registered trigger. -/
structure AotReset where
  aot : UInt8
  sce : UInt8
  sat : UInt8
  data : Vector UInt8 6
  deriving DecidableEq, Repr

instance : Payload AotReset where
  layout _ := AotReset.mk <$> u8 <*> u8 <*> u8 <*> vector 6 u8
  operands p := [s!"aot={p.aot}", s!"sce={p.sce}", "data=" ++ dataText p.data]

end RoomScript.Payload
