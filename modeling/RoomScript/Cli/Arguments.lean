/-!
# Command lines

The words after the program's name. There are two commands, each with options of its own, and one
option, the configuration, that may stand before or after the name of the command; given in both
places, the one after the name counts.

An option is written `--name value`, `--name=value`, `-n value`, `-nvalue` or `-n=value`, at most
once in each place. The value of an option never looks like an option itself, unless it is attached
to it. Two dashes alone end the options, and nothing may follow them.
-/

namespace RoomScript.Cli

/-- What is asked of the program. -/
inductive Command
  /-- Lists a script, to the standard output unless a file is named. -/
  | disasm (input : String) (output : Option String)
  /-- Runs a script for some ticks, after an initial script if one is named. -/
  | run (input : String) (init : Option String) (ticks : Nat)
  deriving DecidableEq, Repr

/-- A command line that makes sense. -/
structure Invocation where
  /-- The file of the configuration. -/
  config : Option String
  command : Command
  deriving DecidableEq, Repr

/-- Why there is nothing to do. -/
inductive Refusal
  /-- How to use the program was asked for. -/
  | help
  /-- The words make no sense. -/
  | misuse
  deriving DecidableEq, Repr

/-! ### Options -/

/-- An option; every option has a value. -/
structure Flag where
  name : String
  letter : Option Char
  accepts : String → Bool

/-- The number that a text of decimal digits stands for, if it fits 64 bits. A plus sign may stand
in front. -/
def count? (text : String) : Option Nat :=
  let digits := match text.toList with
    | '+' :: cs => cs
    | cs => cs
  if !digits.isEmpty && digits.all Char.isDigit then
    let n := digits.foldl (fun n c => 10 * n + (c.toNat - '0'.toNat)) 0
    if n < 0x10000000000000000 then some n else none
  else none

/-- An option that names a file. -/
def Flag.path (name : String) (letter : Option Char) : Flag := ⟨name, letter, fun v => !v.isEmpty⟩

def configFlag : Flag := .path "config" 'c'
def inputFlag : Flag := .path "input" 'i'
def outputFlag : Flag := .path "output" 'o'
def initFlag : Flag := .path "init" none
def ticksFlag : Flag := ⟨"ticks", 't', fun v => (count? v).isSome⟩

/-- How a word reads. -/
inductive Word
  /-- A value, or the name of a command. -/
  | plain
  /-- The end of the options. -/
  | escape
  | help
  /-- An option, and the value if it is attached. -/
  | option (flag : Flag) (attached : Option String)
  /-- An option that does not exist. -/
  | unknown

/-- What stands after the first equals sign, if there is one. -/
def attachment (cs : List Char) : Option String :=
  match cs.dropWhile (· ≠ '=') with
  | [] => none
  | _ :: value => some (String.ofList value)

/-- Reads a word where the given options are known. -/
def Word.ofString (flags : List Flag) (w : String) : Word :=
  match w.toList with
  | ['-', '-'] => .escape
  | '-' :: '-' :: cs =>
    let name := String.ofList (cs.takeWhile (· ≠ '='))
    match flags.find? (·.name = name), attachment cs with
    | some flag, attached => .option flag attached
    | none, none => if name = "help" then .help else .unknown
    | none, some _ => .unknown
  | '-' :: c :: cs =>
    match flags.find? (·.letter = some c) with
    | some flag => .option flag <| match cs with
      | [] => none
      | '=' :: value => some (String.ofList value)
      | value => some (String.ofList value)
    | none => if c = 'h' then .help else .unknown
  | _ => .plain

/-- Options and their values. -/
abbrev Given := List (String × String)

/-- Adds the value of an option, which has to be acceptable and the first of that option. -/
def Given.add (given : Given) (flag : Flag) (value : String) : Except Refusal Given :=
  if flag.accepts value && (given.lookup flag.name).isNone then .ok ((flag.name, value) :: given)
  else .error .misuse

/-- Reads options up to the first word that is none, and gives that word with those after it. -/
def options (flags : List Flag) (given : Given) : List String → Except Refusal (Given × List String)
  | [] => .ok (given, [])
  | w :: rest =>
    match Word.ofString flags w with
    | .plain => .ok (given, w :: rest)
    | .escape => if rest.isEmpty then .ok (given, []) else .error .misuse
    | .help => .error .help
    | .unknown => .error .misuse
    | .option flag (some value) => do options flags (← given.add flag value) rest
    | .option flag none =>
      match rest with
      | [] => .error .misuse
      | value :: rest =>
        match Word.ofString flags value with
        | .plain => do options flags (← given.add flag value) rest
        | _ => .error .misuse

/-! ### Commands -/

/-- The ticks of a run that does not say. -/
def defaultTicks : Nat := 30

/-- Reads the options of a command, with nothing else after them. -/
def commandOptions (flags : List Flag) (words : List String) : Except Refusal Given := do
  let (given, rest) ← options (configFlag :: flags) [] words
  if rest.isEmpty then return given else throw .misuse

/-- The value of an option that has to be there. -/
def Given.need (given : Given) (flag : Flag) : Except Refusal String :=
  match given.lookup flag.name with
  | some value => .ok value
  | none => .error .misuse

/-- Reads the name of a command and its options. -/
def Command.ofWords : List String → Except Refusal (Command × Given)
  | "disasm" :: words => do
    let given ← commandOptions [inputFlag, outputFlag] words
    return (.disasm (← given.need inputFlag) (given.lookup outputFlag.name), given)
  | "run" :: words => do
    let given ← commandOptions [inputFlag, initFlag, ticksFlag] words
    let ticks := ((given.lookup ticksFlag.name).bind count?).getD defaultTicks
    return (.run (← given.need inputFlag) (given.lookup initFlag.name) ticks, given)
  | ["help"] | ["help", "disasm"] | ["help", "run"] => .error .help
  | _ => .error .misuse

/-- Reads the words after the program's name. -/
def Invocation.ofWords (words : List String) : Except Refusal Invocation := do
  let (before, words) ← options [configFlag] [] words
  let (command, after) ← Command.ofWords words
  return ⟨(after.lookup configFlag.name).or (before.lookup configFlag.name), command⟩

/-- The files that an invocation reads. -/
def Invocation.sources (i : Invocation) : List String :=
  i.config.toList ++ match i.command with
    | .disasm input _ => [input]
    | .run input init _ => input :: init.toList

end RoomScript.Cli
