import RoomScript.Payload.Memory

/-!
# Payloads that reach the stage

Cameras, the selected entity and its members, collision, room objects, sprites, the player, enemies
and music.
-/

namespace RoomScript.Payload

open Layout

/-- Three coordinates. -/
abbrev Triple (α : Type) := Vector α 3

/-- Coordinates as text. -/
def tripleText [ToString α] (v : Triple α) : String := Text.bracketed (v.toList.map toString)

/-- Changes the camera. -/
structure CutChange where
  camera : UInt8
  deriving DecidableEq, Repr

instance : Payload CutChange where
  layout _ := CutChange.mk <$> u8
  operands p := [s!"camera={p.camera}"]

/-- Selects the entity that later position and member writes go to. -/
structure WorkSelect where
  component : UInt8
  index : UInt8
  deriving DecidableEq, Repr

instance : Payload WorkSelect where
  layout _ := WorkSelect.mk <$> u8 <*> u8
  operands p := [s!"component={p.component}", s!"index={p.index}"]

/-- Moves the selected entity. -/
structure PosSet where
  x : Int16
  y : Int16
  z : Int16
  deriving DecidableEq, Repr

instance : Payload PosSet where
  layout _ := pad 1 *> (PosSet.mk <$> i16 <*> i16 <*> i16)
  operands p := [s!"x={p.x}", s!"y={p.y}", s!"z={p.z}"]

/-- Writes a member of the selected entity. -/
structure MemberSet where
  member : UInt8
  value : Int16
  deriving DecidableEq, Repr

instance : Payload MemberSet where
  layout _ := MemberSet.mk <$> u8 <*> i16
  operands p := [s!"member={p.member}", s!"value={p.value}"]

/-- The member that holds the rotation about the vertical axis. -/
def MemberSet.rotation : UInt8 := 15

/-- Tests a member of the selected entity. -/
structure MemberCmp where
  member : UInt8
  operation : UInt8
  value : Int16
  deriving DecidableEq, Repr

instance : Payload MemberCmp where
  layout _ := pad 1 *> (MemberCmp.mk <$> u8 <*> u8 <*> i16)
  operands p := [s!"member={p.member}", "op=" ++ compareSymbol p.operation, s!"value={p.value}"]

/-- Switches a collision entity; flag zero removes it. -/
structure CollisionSet where
  id : UInt8
  flag : UInt16
  deriving DecidableEq, Repr

instance : Payload CollisionSet where
  layout _ := CollisionSet.mk <$> u8 <*> u16
  operands p := [s!"id={p.id}", s!"flag={p.flag}"]

/-- Places a room object model. -/
structure ObjModelSet where
  index : UInt8
  id : UInt8
  counter : UInt8
  wait : UInt8
  num : UInt8
  floor : UInt8
  flag0 : UInt8
  kind : UInt16
  flag1 : UInt16
  attr : Int16
  position : Triple Int16
  direction : Triple Int16
  offset : Triple Int16
  dimensions : Triple UInt16
  deriving DecidableEq, Repr

instance : Payload ObjModelSet where
  layout _ := ObjModelSet.mk <$> u8 <*> u8 <*> u8 <*> u8 <*> u8 <*> u8 <*> u8
    <*> u16 <*> u16 <*> i16 <*> vector 3 i16 <*> vector 3 i16 <*> vector 3 i16 <*> vector 3 u16
  operands p := [s!"index={p.index}", s!"id={p.id}", "position=" ++ tripleText p.position,
    "direction=" ++ tripleText p.direction]

/-- Spawns an effect sprite. -/
structure SpriteOn where
  id : UInt8
  kind : UInt8
  work : UInt16
  unknown : Int16
  x : Int16
  y : Int16
  z : Int16
  dirY : UInt16
  deriving DecidableEq, Repr

instance : Payload SpriteOn where
  layout _ := pad 1 *>
    (SpriteOn.mk <$> u8 <*> u8 <*> u16 <*> i16 <*> i16 <*> i16 <*> i16 <*> u16)
  operands p := [s!"id={p.id}", s!"type={p.kind}",
    "pos=" ++ Text.bracketed [toString p.x, toString p.y, toString p.z]]

/-- Removes an effect sprite. -/
structure SpriteKill where
  id : UInt8
  kind : UInt8
  workKind : UInt8
  workNo : Int8
  deriving DecidableEq, Repr

instance : Payload SpriteKill where
  layout _ := SpriteKill.mk <$> u8 <*> u8 <*> u8 <*> i8
  operands p := [s!"id={p.id}", s!"type={p.kind}"]

/-- Plays a motion of the player. -/
structure PlayerMotion where
  action : UInt8
  moveNo : UInt8
  flag : UInt8
  deriving DecidableEq, Repr

instance : Payload PlayerMotion where
  layout _ := PlayerMotion.mk <$> u8 <*> u8 <*> u8
  operands p := [s!"action={p.action}", s!"move={p.moveNo}"]

/-- Sends the player to a place. -/
structure PlayerDest where
  action : UInt8
  flagNo : UInt8
  x : Int16
  z : Int16
  deriving DecidableEq, Repr

instance : Payload PlayerDest where
  layout _ := pad 1 *> (PlayerDest.mk <$> u8 <*> u8 <*> i16 <*> i16)
  operands p := [s!"action={p.action}", s!"x={p.x}", s!"z={p.z}"]

/-- Turns the player's head. -/
structure PlayerNeck where
  operation : UInt8
  target : Triple Int16
  speedX : Int8
  speedZ : Int8
  deriving DecidableEq, Repr

instance : Payload PlayerNeck where
  layout _ := PlayerNeck.mk <$> u8 <*> vector 3 i16 <*> i8 <*> i8
  operands p := [s!"op={p.operation}", "target=" ++ tripleText p.target]

/-- Spawns an enemy. -/
structure EnemySet where
  aot : UInt8
  id : UInt8
  kind : UInt16
  floor : UInt8
  soundFlag : UInt8
  modelType : UInt8
  emSetFlag : UInt8
  position : Triple Int16
  dirY : UInt16
  motion : UInt16
  ctrFlag : UInt16
  deriving DecidableEq, Repr

instance : Payload EnemySet where
  layout _ := pad 1 *> (EnemySet.mk <$> u8 <*> u8 <*> u16 <*> u8 <*> u8 <*> u8 <*> u8
    <*> vector 3 i16 <*> u16 <*> u16 <*> u16)
  operands p := [s!"id={p.id}", s!"type={p.kind}", "position=" ++ tripleText p.position]

/-- Controls the background music. -/
structure BgmControl where
  id : UInt8
  operation : UInt8
  kind : UInt8
  leftVolume : UInt8
  rightVolume : UInt8
  deriving DecidableEq, Repr

instance : Payload BgmControl where
  layout _ := BgmControl.mk <$> u8 <*> u8 <*> u8 <*> u8 <*> u8
  operands p := [s!"id={p.id}", s!"op={p.operation}"]

end RoomScript.Payload
