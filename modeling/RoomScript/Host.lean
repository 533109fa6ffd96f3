import RoomScript.Notice
import RoomScript.Single

/-!
# Hosts

Scripts run inside a game. They read it in two places only, flags and variables, and change it only
through the writes listed here, so what an instruction does to the game is a value that can be
looked at. A `Host` is anything that can be read and written like that; `Journal` is a host that
remembers the writes it has passed on.
-/

namespace RoomScript

open Payload

/-- What a script can do to the game it runs in. -/
inductive Write
  | setBit (array bit : UInt8) (on : Bool)
  | setVariable (id : UInt8) (value : Int32)
  | changeCamera (camera : UInt8)
  | setPlayerPosition (x y z : Single)
  | setPlayerRotation (degrees : Single)
  | removeCollision (id : UInt8)
  | registerZone (zone : AotSet)
  | registerDoor (door : DoorSet)
  | registerItem (item : ItemSet)
  | resetZone (reset : AotReset)
  | addScriptSprite (sprite : SpriteOn)
  | playerMotion (motion : PlayerMotion)
  | playerDestination (dest : PlayerDest)
  | playerNeck (neck : PlayerNeck)
  | spawnEnemy (enemy : EnemySet)
  | killScriptSprite (kill : SpriteKill)
  | bgmControl (bgm : BgmControl)
  /-- Places a model in the scene. -/
  | placeModel (model : ObjModelSet)
  /-- Turns a model of the scene. -/
  | rotateModel (index : UInt8) (degrees : Single)
  /-- Adds a sprite to the scene. -/
  | addSprite (sprite : SpriteOn)
  deriving DecidableEq, Repr

/-- The writes that go to the scene rather than to the state of the game. -/
def Write.toScene : Write → Bool
  | .placeModel _ | .rotateModel .. | .addSprite _ => true
  | _ => false

/-- A game that scripts can run in. -/
class Host (σ : Type) where
  /-- Whether a flag is set. -/
  bit : σ → (array bit : UInt8) → Bool
  /-- The value of a variable. -/
  var : σ → (id : UInt8) → Int32
  /-- Carries out a write, with what there is to say about it. -/
  perform : σ → Write → σ × List Notice

/-- What scripts can read of a host. -/
structure Host.View where
  bit : (array bit : UInt8) → Bool
  var : (id : UInt8) → Int32

/-- The readable part of a host. -/
def Host.view [Host σ] (host : σ) : Host.View := ⟨Host.bit host, Host.var host⟩

/-- A host together with the writes it was given, in order. -/
structure Journal (σ : Type) where
  host : σ
  writes : Array Write := #[]

instance [Host σ] : Host (Journal σ) where
  bit j := Host.bit j.host
  var j := Host.var j.host
  perform j w :=
    let (host, notices) := Host.perform j.host w
    (⟨host, j.writes.push w⟩, notices)

end RoomScript
