import RoomScript.Record.Payloads
import RoomScript.Session

/-!
# Records of a run's state

The serialised forms of sessions and scenes, and the documents of threads.
-/

namespace RoomScript

open Fields

/-- Flag banks, each as its words. -/
def Flags.form : Form Flags := .record (Flags.mk
  <$> one "flags" (·.banks) (.table (.vector 8 .u32)))

/-- A position is written as its three coordinates. -/
def Player.form : Form Player := .record
  ((fun (p : Vector Single 3) rotation => Player.mk p[0] p[1] p[2] rotation)
    <$> one "position" (fun p => #v[p.x, p.y, p.z]) (.vector 3 .single)
    <*> one "rotation" (·.rotation) .single)

def Session.form : Form Session := .record (Session.mk
  <$> one "flags" (·.flags) Flags.form
  <*> one "variables" (·.vars) (.table .i32)
  <*> one "camera" (·.camera) .u8
  <*> one "player" (·.player) Player.form
  <*> one "aots" (·.zones) (.array Payload.AotSet.form)
  <*> one "doors" (·.doors) (.array Payload.DoorSet.form)
  <*> one "items" (·.items) (.array Payload.ItemSet.form)
  <*> one "removed_collisions" (·.removedCollisions) (.array .u8)
  <*> one "sprites" (·.sprites) (.array Payload.SpriteOn.form)
  <*> one "killed_sprites" (·.killedSprites) (.array Payload.SpriteKill.form)
  <*> one "enemies" (·.enemies) (.array Payload.EnemySet.form)
  <*> one "bgm" (·.bgm) (.array Payload.BgmControl.form))

def Scene.form : Form Scene := .record (Scene.mk
  <$> one "items" (·.items) (.table Payload.ObjModelSet.form)
  <*> one "rotations" (·.rotations) (.table .single)
  <*> one "sprites" (·.sprites) (.array Payload.SpriteOn.form))

/-! ### Threads -/

def Frame.toDoc (f : Frame) : Doc := .record
  [("counter", .int f.counter), ("break_pc", .int f.breakTo), ("stack_value", .int f.body),
    ("level_if_counter", .int f.ifCounter)]

def Level.toDoc (l : Level) : Doc := .record
  [("if_else_counter", .int l.ifCounter),
    ("stack", .list (l.stack.toList.map fun (a : Nat) => Doc.int a)),
    ("return_address", .int l.returnTo), ("loop_level", .int l.loopLevel),
    ("loop_state", .list (l.frames.toList.map Frame.toDoc))]

def WorkSet.toDoc (w : WorkSet) : Doc := .record
  [("component", .int w.component.toNat), ("index", .int w.index.toNat)]

def Thread.toDoc (t : Thread) : Doc := .record
  [("id", .int t.id), ("run_status", .bool t.running), ("pc", .int t.pc),
    ("sub_level", .int t.sub.val), ("stack_index", .int t.stackIndex),
    ("work_set", t.workSet.toDoc), ("levels", .list (t.levels.toList.map Level.toDoc))]

end RoomScript
