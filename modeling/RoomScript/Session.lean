import RoomScript.Flags
import RoomScript.Host

/-!
# Sessions and scenes

A game kept in memory: nothing is drawn or simulated, but everything scripts ask for is recorded.
The `Session` holds the state of the game, the `Scene` what is to be drawn; a `Stage` is the two
together, and the host that scripts run in without a game around them.

Flags and variables outlive a room; everything a room registers is forgotten when it is left.
-/

namespace RoomScript

open Payload

/-- Where the player is, and which way he faces, in degrees. -/
structure Player where
  x : Single := {}
  y : Single := {}
  z : Single := {}
  rotation : Single := {}
  deriving DecidableEq, Repr, Inhabited

/-- The state of the game. -/
structure Session where
  flags : Flags := {}
  vars : Table Int32 := {}
  camera : UInt8 := 0
  player : Player := {}
  zones : Array AotSet := #[]
  doors : Array DoorSet := #[]
  items : Array ItemSet := #[]
  removedCollisions : Array UInt8 := #[]
  sprites : Array SpriteOn := #[]
  killedSprites : Array SpriteKill := #[]
  enemies : Array EnemySet := #[]
  bgm : Array BgmControl := #[]
  deriving DecidableEq, Repr, Inhabited

namespace Session

/-- Whether a flag is set. -/
def bit (s : Session) (array bit : UInt8) : Bool := s.flags.get array bit

/-- The value of a variable; one never set is zero. -/
def var (s : Session) (id : UInt8) : Int32 := (s.vars.get? id).getD 0

/-- Forgets what the room has registered, its music too. -/
def leaveRoom (s : Session) : Session :=
  { s with
    zones := #[], doors := #[], items := #[], removedCollisions := #[], sprites := #[],
    killedSprites := #[], enemies := #[], bgm := #[] }

/-- The trigger registered last under an id. -/
def zone? (s : Session) (id : UInt8) : Option AotSet :=
  s.zones.toList.reverse.find? (·.header.aot = id)

/-- The instruction that walking into a trigger fires. -/
def eventTrigger (s : Session) (id : UInt8) : Option Bytes := (s.zone? id).bind AotSet.eventTrigger

/-- Changes a trigger if the reset is meant for it. -/
def resetOne (reset : AotReset) (zone : AotSet) : AotSet :=
  if zone.header.aot = reset.aot then
    { zone with
      header := { zone.header with sce := reset.sce, sat := reset.sat }
      data := reset.data }
  else zone

/-- Carries out a write to the state of the game. Writes to the scene, and those the session has no
room for, change nothing. -/
def perform (s : Session) : Write → Session
  | .setBit array bit on => { s with flags := s.flags.set array bit on }
  | .setVariable id value => { s with vars := s.vars.insert id value }
  | .changeCamera camera => { s with camera := camera }
  | .setPlayerPosition x y z => { s with player := { s.player with x := x, y := y, z := z } }
  | .setPlayerRotation degrees => { s with player := { s.player with rotation := degrees } }
  | .removeCollision id =>
    if s.removedCollisions.contains id then s
    else { s with removedCollisions := s.removedCollisions.push id }
  | .registerZone zone => { s with zones := s.zones.push zone }
  | .registerDoor door => { s with doors := s.doors.push door }
  | .registerItem item => { s with items := s.items.push item }
  | .resetZone reset => { s with zones := s.zones.map (resetOne reset) }
  | .addScriptSprite sprite => { s with sprites := s.sprites.push sprite }
  | .spawnEnemy enemy => { s with enemies := s.enemies.push enemy }
  | .killScriptSprite kill => { s with killedSprites := s.killedSprites.push kill }
  | .bgmControl bgm => { s with bgm := s.bgm.push bgm }
  | .playerMotion _ | .playerDestination _ | .playerNeck _ => s
  | .placeModel _ | .rotateModel .. | .addSprite _ => s

end Session

/-- What is to be drawn. -/
structure Scene where
  items : Table ObjModelSet := {}
  rotations : Table Single := {}
  sprites : Array SpriteOn := #[]
  deriving DecidableEq, Repr, Inhabited

namespace Scene

/-- Carries out a write to the scene; other writes change nothing. Turning a model that was not
placed is worth a notice, and is done all the same. -/
def perform (s : Scene) : Write → Scene × List Notice
  | .placeModel model => ({ s with items := s.items.insert model.index model }, [])
  | .rotateModel index degrees =>
    ({ s with rotations := s.rotations.insert index degrees },
      if s.items.contains index then [] else [.unplacedModel index])
  | .addSprite sprite => ({ s with sprites := s.sprites.push sprite }, [])
  | _ => (s, [])

end Scene

/-- A session and its scene. -/
structure Stage where
  session : Session := {}
  scene : Scene := {}
  deriving DecidableEq, Repr, Inhabited

instance : Host Stage where
  bit s := s.session.bit
  var s := s.session.var
  perform s w :=
    let (scene, notices) := s.scene.perform w
    (⟨s.session.perform w, scene⟩, notices)

end RoomScript
