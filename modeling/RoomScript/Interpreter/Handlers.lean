import RoomScript.Interpreter.Control
import RoomScript.Interpreter.Memory
import RoomScript.Interpreter.Staging

/-!
# The handler table

Which handler executes which opcode. Opcodes without a handler of their own are stepped over.
Members are compared only in name: such a condition is read and always passes.
-/

namespace RoomScript

open Payload

namespace Handler

/-- Hands the payload to the host as one write. -/
def handOver (α : Type) [Payload α] (write : α → Write) : Handler :=
  reading α fun site _ p => site.ask [write p]

/-- The handler an opcode comes with. -/
def standard : Opcode → Handler
  | .evtEnd => bare Control.evtEnd
  | .evtExec => reading EvtExec fun site _ p => Control.evtExec site p
  | .ifStart => reading Block fun site _ p => Control.ifStart site p
  | .elseStart => reading Block fun site _ p => Control.elseStart site p
  | .endIf => bare Control.endIf
  | .sleep => reading Sleep fun site _ p => Control.sleep site p
  | .sleeping => bare Control.sleeping
  | .forLoop => reading ForLoop fun site _ p => Control.forStart site p
  | .forEnd => bare Control.forEnd
  | .switch => reading Switch fun site view p => Control.switch site view p
  | .endSwitch => bare Control.endSwitch
  | .goto => reading Goto fun site _ p => Control.goto site p
  | .gosub => reading Gosub fun site _ p => Control.gosub site p
  | .breakLoop => bare Control.breakLoop
  | .check => reading Check fun site view p => Memory.check site view p
  | .setBit => reading SetBit fun site view p => Memory.setBit site view p
  | .compare => reading Compare fun site view p => Memory.compare site view p
  | .save => reading Save fun site _ p => Memory.save site p
  | .copy => reading Copy fun site view p => Memory.copy site view p
  | .calculate => reading Calculate fun site view p => Memory.calculate site view p
  | .calculateFrom => reading CalculateFrom fun site view p => Memory.calculateFrom site view p
  | .cutChg => reading CutChange fun site _ p => Staging.cutChange site p
  | .aotSet | .aotSet4p => reading AotSet fun site _ p => Staging.zoneSet site p
  | .objModelSet => reading ObjModelSet fun site _ p => Staging.modelSet site p
  | .workSet => reading WorkSelect fun site _ p => Staging.workSelect site p
  | .posSet => reading PosSet fun site _ p => Staging.posSet site p
  | .memberSet => reading MemberSet fun site _ p => Staging.memberSet site p
  | .scaIdSet => reading CollisionSet fun site _ p => Staging.collisionSet site p
  | .sceEsprOn => reading SpriteOn fun site _ p => Staging.spriteOn site p
  | .doorAotSet | .doorAotSet4p => reading DoorSet fun site _ p => Staging.doorSet site p
  | .memberCmp => reading MemberCmp fun site _ _ => site.goOn .next
  | .plcMotion => handOver PlayerMotion .playerMotion
  | .plcDest => handOver PlayerDest .playerDestination
  | .plcNeck => handOver PlayerNeck .playerNeck
  | .sceEmSet => handOver EnemySet .spawnEnemy
  | .aotReset => handOver AotReset .resetZone
  | .sceEsprKill => handOver SpriteKill .killScriptSprite
  | .itemAotSet | .itemAotSet4p => reading ItemSet fun site _ p => Staging.itemSet site p
  | .sceBgmControl => handOver BgmControl .bgmControl
  | _ => always .next

end Handler

/-- A handler for every opcode. -/
abbrev Handlers := Opcode → Handler

/-- The table with the handler of one opcode replaced. -/
def Handlers.register (hs : Handlers) (op : Opcode) (h : Handler) : Handlers :=
  fun op' => if op' = op then h else hs op'

end RoomScript
