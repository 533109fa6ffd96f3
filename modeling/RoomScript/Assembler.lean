import RoomScript.Script

/-!
# The assembler

A script is written top to bottom as a list of steps. A step that opens a block leaves its length
empty; the step that closes the block fills it in. Lengths are measured from different places:

* an if without else spans from after its header to after its closing instruction;
* an if with an else resumes just after the header of the else;
* an else spans from its own header to its end, and has no closing instruction;
* a loop and a switch span from after their header to after their closing instruction;
* an arm of a switch spans its body only, and is closed by whatever ends it.

The first mistake is kept and makes the whole script fail; later steps are still carried out.
-/

namespace RoomScript

/-- A step of writing a script. -/
inductive Step
  /-- Declares an entry point here. -/
  | entry
  /-- Emits an instruction; a short payload is filled up with zeros. -/
  | instruction (op : Opcode) (payload : List UInt8)
  /-- Emits bytes as they are. -/
  | raw (bytes : Bytes)
  | nop
  | evtEnd
  | evtExec (thread event : UInt8)
  | ifStart
  | elseStart
  | endIf
  | sleep (ticks : UInt16)
  | forLoop (count : UInt16)
  | forEnd
  | switch (var : UInt8)
  | caseArm (value : UInt16)
  | defaultCase
  | endSwitch
  | breakLoop
  | goto (offset : Int16)
  | gosub (event : UInt8)
  | check (array bit value : UInt8)
  | setBit (array bit operation : UInt8)
  | compare (var operation : UInt8) (value : Int16)
  | save (var : UInt8) (value : Int16)
  | copy (dest source : UInt8)
  | calculate (operation var : UInt8) (value : Int16)
  | calculateFrom (operation var source : UInt8)
  | cutChg (camera : UInt8)
  | workSet (component index : UInt8)
  | posSet (x y z : Int16)
  | memberSet (member : UInt8) (value : Int16)
  | scaIdSet (id : UInt8) (flag : UInt16)
  deriving DecidableEq, Repr

open Layout in
/-- The instruction a step writes where it stands, with lengths still empty. Steps that write no
instruction, or one that depends on the block they close, have none. -/
def Step.emission? : Step → Option (Opcode × List UInt8)
  | .entry | .raw _ | .endIf | .forEnd | .endSwitch => none
  | .instruction op payload => some (op, payload)
  | .nop => some (.nop, [])
  | .evtEnd => some (.evtEnd, [])
  | .evtExec thread event => some (.evtExec, [thread, Opcode.gosub.toByte, event])
  | .ifStart => some (.ifStart, [])
  | .elseStart => some (.elseStart, [])
  | .sleep ticks => some (.sleep, Opcode.sleeping.toByte :: wordBytes ticks)
  | .forLoop count => some (.forLoop, [0, 0, 0] ++ wordBytes count)
  | .switch var => some (.switch, [var])
  | .caseArm value => some (.caseArm, [0, 0, 0] ++ wordBytes value)
  | .defaultCase => some (.defaultCase, [])
  | .breakLoop => some (.breakLoop, [])
  | .goto offset => some (.goto, [0xff, 0xff, 0] ++ signedBytes offset)
  | .gosub event => some (.gosub, [event])
  | .check array bit value => some (.check, [array, bit, value])
  | .setBit array bit operation => some (.setBit, [array, bit, operation])
  | .compare var operation value => some (.compare, [0, var, operation] ++ signedBytes value)
  | .save var value => some (.save, var :: signedBytes value)
  | .copy dest source => some (.copy, [dest, source])
  | .calculate operation var value => some (.calculate, [0, operation, var] ++ signedBytes value)
  | .calculateFrom operation var source => some (.calculateFrom, [operation, var, source])
  | .cutChg camera => some (.cutChg, [camera])
  | .workSet component index => some (.workSet, [component, index])
  | .posSet x y z => some (.posSet, 0 :: signedBytes x ++ signedBytes y ++ signedBytes z)
  | .memberSet member value => some (.memberSet, member :: signedBytes value)
  | .scaIdSet id flag => some (.scaIdSet, id :: wordBytes flag)

/-! ### Blocks that are open -/

/-- A block that waits to be closed, with the address of its header. -/
inductive Opening
  | ifBlock (start : Nat)
  | elseBlock (start : Nat)
  | forLoop (start : Nat)
  | switch (start : Nat)
  | caseArm (start : Nat)
  | defaultCase
  deriving DecidableEq, Repr

/-- An open block as error messages show it. -/
def Opening.text : Opening → String
  | .ifBlock start => s!"If({start})"
  | .elseBlock start => s!"Else({start})"
  | .forLoop start => s!"For({start})"
  | .switch start => s!"Switch({start})"
  | .caseArm start => s!"Case({start})"
  | .defaultCase => "Default"

/-- The steps that close a block. -/
inductive Closing
  | endIf
  | forEnd
  | endSwitch
  deriving DecidableEq, Repr

/-- A closing step as error messages show it. -/
def Closing.text : Closing → String
  | .endIf => "end_if"
  | .forEnd => "for_end"
  | .endSwitch => "end_switch"

/-- Why steps do not make a script. -/
inductive BuildError
  /-- An instruction was given more payload than it holds. -/
  | payloadTooLong (op : Opcode) (given : Nat)
  /-- An else without an if directly around it. -/
  | elseWithoutIf
  /-- A closing step that does not fit the innermost open block. -/
  | mismatch (closing : Closing) (found : Option Opening)
  /-- A block whose length does not fit its field, given by the address of the field. -/
  | blockTooLong (field : Nat)
  /-- A block left open. -/
  | unclosed (block : Opening)
  /-- An entry point behind the last byte. -/
  | entry (cause : EntryPastEnd)
  /-- An entry point that the table on disk cannot hold. -/
  | entryTooFar (address : Nat)
  deriving DecidableEq, Repr

/-- The wording of a build error. -/
def BuildError.message : BuildError → String
  | .payloadTooLong op given =>
    op.mnemonic ++ s!" takes {op.size - 1} payload bytes, got {given}"
  | .elseWithoutIf => "else_start without an open if"
  | .mismatch closing found =>
    closing.text ++ " does not close " ++
      match found with
      | some block => "Some(" ++ block.text ++ ")"
      | none => "None"
  | .blockTooLong field => "block at 0x" ++ Text.hex field ++ " is longer than 0xFFFF bytes"
  | .unclosed block => "unclosed block: " ++ block.text
  | .entry cause => cause.message
  | .entryTooFar address => "entry at 0x" ++ Text.hex address ++ " does not fit the u16 entry table"

/-! ### The builder -/

/-- A script being written. -/
structure Builder where
  code : Bytes := #[]
  /-- The entry points declared so far. -/
  entries : Array Nat := #[]
  /-- The open blocks, the innermost first. -/
  opened : List Opening := []
  /-- The first mistake. -/
  error : Option BuildError := none
  deriving DecidableEq, Repr, Inhabited

namespace Builder

/-- Notes a mistake, unless there was one before. -/
def fail (b : Builder) (e : BuildError) : Builder := { b with error := b.error.or (some e) }

/-- Writes an instruction, filling its payload up with zeros. -/
def emit (b : Builder) (op : Opcode) (payload : List UInt8) : Builder :=
  if payload.length + 1 > op.size then b.fail (.payloadTooLong op payload.length)
  else { b with code := b.code ++
    (op.toByte :: payload ++ List.replicate (op.size - 1 - payload.length) 0) }

/-- Opens a block. -/
def openBlock (b : Builder) (block : Opening) : Builder := { b with opened := block :: b.opened }

/-- Takes the innermost open block off. -/
def closeBlock (b : Builder) : Builder := { b with opened := b.opened.tail }

/-- Fills in a length at the address of its field. -/
def patch (b : Builder) (field length : Nat) : Builder :=
  if length < 65536 then
    let w := UInt16.ofNat length
    { b with code :=
        (b.code.setIfInBounds field (Layout.low w)).setIfInBounds (field + 1) (Layout.high w) }
  else b.fail (.blockTooLong field)

/-- The address of the length field in the header at `start`. -/
def lengthField (start : Nat) : Nat := start + 2

/-- Closes the arm on top of the open blocks, if there is one. -/
def closeArm (b : Builder) : Builder :=
  match b.opened with
  | .caseArm start :: _ =>
    b.closeBlock.patch (lengthField start) (b.code.size - (start + Opcode.caseArm.size))
  | .defaultCase :: _ => b.closeBlock
  | _ => b

/-- Writes the closing instruction of a block whose header is at `start` and fills in the length
from after the header to here. -/
def finish (b : Builder) (start : Nat) (header closer : Opcode) : Builder :=
  let b := b.closeBlock.emit closer []
  b.patch (lengthField start) (b.code.size - (start + header.size))

/-- Closes an if or else block. -/
def endIf (b : Builder) : Builder :=
  match b.opened with
  | .ifBlock start :: _ => b.finish start .ifStart .endIf
  -- An else ends where its length says; no instruction closes it.
  | .elseBlock start :: _ => b.closeBlock.patch (lengthField start) (b.code.size - start)
  -- A block that does not fit is taken off all the same.
  | found => b.closeBlock.fail (.mismatch .endIf found.head?)

/-- Closes a loop. -/
def forEnd (b : Builder) : Builder :=
  match b.opened with
  | .forLoop start :: _ => b.finish start .forLoop .forEnd
  | found => b.closeBlock.fail (.mismatch .forEnd found.head?)

/-- Closes a switch, after the arm on top of it. -/
def endSwitch (b : Builder) : Builder :=
  let b := b.closeArm
  match b.opened with
  | .switch start :: _ => b.finish start .switch .endSwitch
  | found => b.closeBlock.fail (.mismatch .endSwitch found.head?)

/-- Turns the innermost if block into an else block. -/
def elseStart (b : Builder) : Builder :=
  match b.opened with
  | .ifBlock start :: _ =>
    let here := b.code.size
    ((b.closeBlock.patch (lengthField start) (here - start)).openBlock (.elseBlock here)).emit
      .elseStart []
  | _ => b.closeBlock.fail .elseWithoutIf

/-- Writes the instruction of a step. -/
def write (b : Builder) (step : Step) : Builder :=
  match step.emission? with
  | some (op, payload) => b.emit op payload
  | none => b

/-- Carries out one step. -/
def apply (b : Builder) (step : Step) : Builder :=
  match step with
  | .entry => { b with entries := b.entries.push b.code.size }
  | .raw bytes => { b with code := b.code ++ bytes }
  | .ifStart => (b.openBlock (.ifBlock b.code.size)).write step
  | .elseStart => b.elseStart
  | .endIf => b.endIf
  | .forLoop _ => (b.openBlock (.forLoop b.code.size)).write step
  | .forEnd => b.forEnd
  | .switch _ => (b.openBlock (.switch b.code.size)).write step
  | .caseArm _ =>
    let b := b.closeArm
    (b.openBlock (.caseArm b.code.size)).write step
  | .defaultCase => (b.closeArm.openBlock .defaultCase).write step
  | .endSwitch => b.endSwitch
  | _ => b.write step

/-- Carries out steps from nothing. -/
def run (steps : List Step) : Builder := steps.foldl apply {}

/-- The mistake that keeps the script from being used: the first one made, or a block left open. -/
def mistake? (b : Builder) : Option BuildError := b.error.or (b.opened.head?.map .unclosed)

/-- The entry points; a script that declares none starts at its first byte. -/
def entryPoints (b : Builder) : List Nat := if b.entries.isEmpty then [0] else b.entries.toList

/-- The finished script. -/
def build (b : Builder) : Except BuildError Script :=
  match b.mistake? with
  | some e => .error e
  | none =>
    match Script.ofParts b.code b.entryPoints with
    | .error e => .error (.entry e)
    | .ok script => .ok script

/-- The words of a table of entry points that stands in front of the code. -/
def tableBytes (length : Nat) : List Nat → Except BuildError (List UInt8)
  | [] => .ok []
  | e :: es =>
    if e + length < 65536 then
      match tableBytes length es with
      | .ok rest => .ok (Layout.wordBytes (UInt16.ofNat (e + length)) ++ rest)
      | .error err => .error err
    else .error (.entryTooFar e)

/-- The finished script as it is stored on disk: the table of entry points, then the code. -/
def buildBlob (b : Builder) : Except BuildError Bytes :=
  match b.mistake? with
  | some e => .error e
  | none =>
    match tableBytes (2 * b.entryPoints.length) b.entryPoints with
    | .error e => .error e
    | .ok table => .ok (table.toArray ++ b.code)

end Builder

end RoomScript
