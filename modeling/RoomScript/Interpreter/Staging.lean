import RoomScript.Interpreter.Reaction

/-!
# Instructions that reach the stage

Most of them hand their payload to the host. Position and member writes go to the entity the thread
has selected; only the player can be moved, and only the player and room objects can be turned.
-/

namespace RoomScript.Staging

open Payload

variable {n : Nat}

/-- Changes the camera. -/
def cutChange (site : Site n) (p : CutChange) : Reaction n :=
  site.ask [.changeCamera p.camera] [.cameraChanged p.camera]

/-- Registers a trigger. -/
def zoneSet (site : Site n) (p : AotSet) : Reaction n :=
  site.ask [.registerZone p] [.zoneRegistered p]

/-- Registers a door. -/
def doorSet (site : Site n) (p : DoorSet) : Reaction n :=
  site.ask [.registerDoor p] [.doorRegistered p]

/-- Registers an item pickup. -/
def itemSet (site : Site n) (p : ItemSet) : Reaction n :=
  site.ask [.registerItem p] [.itemRegistered p]

/-- Places a model. -/
def modelSet (site : Site n) (p : ObjModelSet) : Reaction n :=
  site.ask [.placeModel p] [.modelPlaced p.index]

/-- Selects an entity. -/
def workSelect (site : Site n) (p : WorkSelect) : Reaction n :=
  site.become { site.thread with workSet := ⟨p.component, p.index⟩ } .next

/-- Moves the selected entity, if it is the player. -/
def posSet (site : Site n) (p : PosSet) : Reaction n :=
  match site.thread.workSet.target with
  | .player =>
    site.ask [.setPlayerPosition (.ofInt p.x.toInt) (.ofInt p.y.toInt) (.ofInt p.z.toInt)]
      [.playerMoved p.x p.y p.z]
  | other => site.goOn .next [.moveIgnored other]

/-- Turns the selected entity, if it is the player or a room object; other members are ignored. -/
def memberSet (site : Site n) (p : MemberSet) : Reaction n :=
  let target := site.thread.workSet.target
  if p.member = MemberSet.rotation then
    match target with
    | .player => site.ask [.setPlayerRotation (.ofTurn p.value)]
    | .object index => site.ask [.rotateModel index (.ofTurn p.value)]
    | _ => site.goOn .next [.memberIgnored p.member target]
  else site.goOn .next [.memberIgnored p.member target]

/-- Removes a collision entity if the flag is zero. -/
def collisionSet (site : Site n) (p : CollisionSet) : Reaction n :=
  if p.flag = 0 then site.ask [.removeCollision p.id] [.collisionRemoved p.id] else site.goOn .next

/-- Adds a sprite to the game and to the scene. -/
def spriteOn (site : Site n) (p : SpriteOn) : Reaction n :=
  site.ask [.addScriptSprite p, .addSprite p] [.spriteAdded p.id]

end RoomScript.Staging
