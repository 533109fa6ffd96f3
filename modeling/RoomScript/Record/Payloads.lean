import RoomScript.Payload.Operands
import RoomScript.Record.Form

/-!
# Records of payloads

The serialised form of every payload type.
-/

namespace RoomScript.Payload

open Fields

/-- The form of an opcode: its name. -/
def opcodeForm : Form Opcode := .choice Opcode.name Opcode.ofName?

/-! ### Control -/

def EvtExec.form : Form EvtExec := .record (EvtExec.mk
  <$> one "thread" (·.thread) .u8
  <*> one "ex_opcode" (·.exOpcode) .u8
  <*> one "event" (·.event) .u8)

def Block.form : Form Block := .record (Block.mk <$> one "block_length" (·.length) .u16)

def Sleep.form : Form Sleep := .record (Sleep.mk <$> one "count" (·.count) .u16)

def Sleeping.form : Form Sleeping := .record (Sleeping.mk <$> one "count" (·.count) .u16)

def ForLoop.form : Form ForLoop := .record (ForLoop.mk
  <$> one "block_length" (·.length) .u16
  <*> one "count" (·.count) .u16)

def Switch.form : Form Switch := .record (Switch.mk
  <$> one "var_id" (·.var) .u8
  <*> one "block_length" (·.length) .u16)

def CaseArm.form : Form CaseArm := .record (CaseArm.mk
  <$> one "block_length" (·.length) .u16
  <*> one "value" (·.value) .u16)

def Goto.form : Form Goto := .record (Goto.mk
  <$> one "if_else_counter" (·.ifCounter) .i8
  <*> one "loop_level" (·.loopLevel) .i8
  <*> one "offset" (·.offset) .i16)

def Gosub.form : Form Gosub := .record (Gosub.mk <$> one "event" (·.event) .u8)

/-! ### Flags and variables -/

def Check.form : Form Check := .record (Check.mk
  <$> one "bit_array" (·.array) .u8
  <*> one "bit" (·.bit) .u8
  <*> one "value" (·.value) .u8)

def SetBit.form : Form SetBit := .record (SetBit.mk
  <$> one "bit_array" (·.array) .u8
  <*> one "bit" (·.bit) .u8
  <*> one "operation" (·.operation) .u8)

def Compare.form : Form Compare := .record (Compare.mk
  <$> one "var_id" (·.var) .u8
  <*> one "operation" (·.operation) .u8
  <*> one "value" (·.value) .i16)

def Save.form : Form Save := .record (Save.mk
  <$> one "var_id" (·.var) .u8
  <*> one "value" (·.value) .i16)

def Copy.form : Form Copy := .record (Copy.mk
  <$> one "dest" (·.dest) .u8
  <*> one "source" (·.source) .u8)

def Calculate.form : Form Calculate := .record (Calculate.mk
  <$> one "operation" (·.operation) .u8
  <*> one "var_id" (·.var) .u8
  <*> one "value" (·.value) .i16)

def CalculateFrom.form : Form CalculateFrom := .record (CalculateFrom.mk
  <$> one "operation" (·.operation) .u8
  <*> one "var_id" (·.var) .u8
  <*> one "source_var_id" (·.source) .u8)

/-! ### The stage -/

def CutChange.form : Form CutChange := .record (CutChange.mk <$> one "camera" (·.camera) .u8)

def WorkSelect.form : Form WorkSelect := .record (WorkSelect.mk
  <$> one "component" (·.component) .u8
  <*> one "index" (·.index) .u8)

def PosSet.form : Form PosSet := .record (PosSet.mk
  <$> one "x" (·.x) .i16
  <*> one "y" (·.y) .i16
  <*> one "z" (·.z) .i16)

def MemberSet.form : Form MemberSet := .record (MemberSet.mk
  <$> one "member" (·.member) .u8
  <*> one "value" (·.value) .i16)

def MemberCmp.form : Form MemberCmp := .record (MemberCmp.mk
  <$> one "member" (·.member) .u8
  <*> one "operation" (·.operation) .u8
  <*> one "value" (·.value) .i16)

def CollisionSet.form : Form CollisionSet := .record (CollisionSet.mk
  <$> one "id" (·.id) .u8
  <*> one "flag" (·.flag) .u16)

def ObjModelSet.form : Form ObjModelSet := .record (ObjModelSet.mk
  <$> one "index" (·.index) .u8
  <*> one "id" (·.id) .u8
  <*> one "counter" (·.counter) .u8
  <*> one "wait" (·.wait) .u8
  <*> one "num" (·.num) .u8
  <*> one "floor" (·.floor) .u8
  <*> one "flag0" (·.flag0) .u8
  <*> one "kind" (·.kind) .u16
  <*> one "flag1" (·.flag1) .u16
  <*> one "attribute" (·.attr) .i16
  <*> one "position" (·.position) (.vector 3 .i16)
  <*> one "direction" (·.direction) (.vector 3 .i16)
  <*> one "offset" (·.offset) (.vector 3 .i16)
  <*> one "dimensions" (·.dimensions) (.vector 3 .u16))

def SpriteOn.form : Form SpriteOn := .record (SpriteOn.mk
  <$> one "id" (·.id) .u8
  <*> one "kind" (·.kind) .u8
  <*> one "work" (·.work) .u16
  <*> one "unknown" (·.unknown) .i16
  <*> one "x" (·.x) .i16
  <*> one "y" (·.y) .i16
  <*> one "z" (·.z) .i16
  <*> one "dir_y" (·.dirY) .u16)

def SpriteKill.form : Form SpriteKill := .record (SpriteKill.mk
  <$> one "id" (·.id) .u8
  <*> one "kind" (·.kind) .u8
  <*> one "work_kind" (·.workKind) .u8
  <*> one "work_no" (·.workNo) .i8)

def PlayerMotion.form : Form PlayerMotion := .record (PlayerMotion.mk
  <$> one "action" (·.action) .u8
  <*> one "move_no" (·.moveNo) .u8
  <*> one "flag" (·.flag) .u8)

def PlayerDest.form : Form PlayerDest := .record (PlayerDest.mk
  <$> one "action" (·.action) .u8
  <*> one "flag_no" (·.flagNo) .u8
  <*> one "x" (·.x) .i16
  <*> one "z" (·.z) .i16)

def PlayerNeck.form : Form PlayerNeck := .record (PlayerNeck.mk
  <$> one "operation" (·.operation) .u8
  <*> one "target" (·.target) (.vector 3 .i16)
  <*> one "speed_x" (·.speedX) .i8
  <*> one "speed_z" (·.speedZ) .i8)

def EnemySet.form : Form EnemySet := .record (EnemySet.mk
  <$> one "aot" (·.aot) .u8
  <*> one "id" (·.id) .u8
  <*> one "kind" (·.kind) .u16
  <*> one "floor" (·.floor) .u8
  <*> one "sound_flag" (·.soundFlag) .u8
  <*> one "model_type" (·.modelType) .u8
  <*> one "em_set_flag" (·.emSetFlag) .u8
  <*> one "position" (·.position) (.vector 3 .i16)
  <*> one "dir_y" (·.dirY) .u16
  <*> one "motion" (·.motion) .u16
  <*> one "ctr_flag" (·.ctrFlag) .u16)

def BgmControl.form : Form BgmControl := .record (BgmControl.mk
  <$> one "id" (·.id) .u8
  <*> one "operation" (·.operation) .u8
  <*> one "kind" (·.kind) .u8
  <*> one "left_volume" (·.leftVolume) .u8
  <*> one "right_volume" (·.rightVolume) .u8)

/-! ### Trigger zones -/

def ZoneHeader.form : Form ZoneHeader := .record (ZoneHeader.mk
  <$> one "aot" (·.aot) .u8
  <*> one "sce" (·.sce) .u8
  <*> one "sat" (·.sat) .u8
  <*> one "floor" (·.floor) .u8
  <*> one "super" (·.super) .u8)

/-- The sides of a rectangle. -/
structure Rectangle where
  x : Int16
  z : Int16
  w : UInt16
  d : UInt16

def Rectangle.form : Form Rectangle := .record (Rectangle.mk
  <$> one "x" (·.x) .i16
  <*> one "z" (·.z) .i16
  <*> one "w" (·.w) .u16
  <*> one "d" (·.d) .u16)

/-- The four points of a quadrilateral. -/
def pointsForm : Form (Vector Point 4) := .vector 4 (.vector 2 .i16)

def Zone.form : Form Zone where
  toDoc
    | .rect x z w d => .variant "Rect" (Rectangle.form.toDoc ⟨x, z, w, d⟩)
    | .quad points => .variant "Quad" (pointsForm.toDoc points)
  ofJson? json := do
    match ← Form.variant? json with
    | ("Rect", some content) => (Rectangle.form.ofJson? content).map fun r => .rect r.x r.z r.w r.d
    | ("Quad", some content) => (pointsForm.ofJson? content).map .quad
    | _ => none

def AotSet.form : Form AotSet := .record (AotSet.mk
  <$> one "header" (·.header) ZoneHeader.form
  <*> one "zone" (·.zone) Zone.form
  <*> one "data" (·.data) (.vector 6 .u8))

def DoorDestination.form : Form DoorDestination := .record (DoorDestination.mk
  <$> one "position" (·.position) (.vector 3 .i16)
  <*> one "dir" (·.dir) .i16
  <*> one "stage" (·.stage) .u8
  <*> one "room" (·.room) .u8
  <*> one "camera" (·.camera) .u8
  <*> one "floor" (·.floor) .u8
  <*> one "texture" (·.texture) .u8
  <*> one "door_type" (·.doorType) .u8
  <*> one "knock" (·.knock) .u8
  <*> one "key_id" (·.keyId) .u8
  <*> one "key_type" (·.keyType) .u8
  <*> one "free" (·.free) .u8)

def DoorSet.form : Form DoorSet := .record (DoorSet.mk
  <$> one "header" (·.header) ZoneHeader.form
  <*> one "zone" (·.zone) Zone.form
  <*> one "door" (·.door) DoorDestination.form)

def ItemPickup.form : Form ItemPickup := .record (ItemPickup.mk
  <$> one "item_id" (·.itemId) .u16
  <*> one "amount" (·.amount) .u16
  <*> one "flag" (·.flag) .u16
  <*> one "md1" (·.md1) .u8
  <*> one "action" (·.action) .u8)

def ItemSet.form : Form ItemSet := .record (ItemSet.mk
  <$> one "header" (·.header) ZoneHeader.form
  <*> one "zone" (·.zone) Zone.form
  <*> one "item" (·.item) ItemPickup.form)

def AotReset.form : Form AotReset := .record (AotReset.mk
  <$> one "aot" (·.aot) .u8
  <*> one "sce" (·.sce) .u8
  <*> one "sat" (·.sat) .u8
  <*> one "data" (·.data) (.vector 6 .u8))

end RoomScript.Payload
