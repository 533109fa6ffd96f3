import RoomScript.Cli.Arguments
import RoomScript.Doc.Yaml
import RoomScript.Headless
import RoomScript.Listing
import RoomScript.Record.Config

/-!
# The program

What the program does, as a function of its command line and of the files it reads: the
configuration first, then the script, then the initial script, and whatever fails first is reported.
Listings and reports are written as YAML.
-/

namespace RoomScript.Cli

/-- Why a file cannot be read or made. -/
inductive FileError
  | notFound
  | isDirectory
  | notDirectory
  | denied
  | nameTooLong
  | noSpace
  | other (wording : String)
  deriving DecidableEq, Repr

/-- The wording of a file error. -/
def FileError.message : FileError → String
  | .notFound => "No such file or directory (os error 2)"
  | .isDirectory => "Is a directory (os error 21)"
  | .notDirectory => "Not a directory (os error 20)"
  | .denied => "Permission denied (os error 13)"
  | .nameTooLong => "File name too long (os error 36)"
  | .noSpace => "No space left on device (os error 28)"
  | .other wording => wording

/-- The files that can be read, by their paths. -/
abbrev Files := String → Except FileError Bytes

/-! ### Failures -/

/-- What went wrong and why, the outermost part apart from its causes. -/
structure Failure where
  wording : String
  causes : List String := []
  deriving DecidableEq, Repr

/-- The failure of a chain of wordings, the outermost first. -/
def Failure.ofChain : List String → Failure
  | [] => ⟨"", []⟩
  | wording :: causes => ⟨wording, causes⟩

/-- A failure as it is reported; several causes are numbered. -/
def Failure.report (f : Failure) : String :=
  "Error: " ++ f.wording ++ "\n" ++ match f.causes with
    | [] => ""
    | [cause] => "\nCaused by:\n    " ++ cause ++ "\n"
    | causes => "\nCaused by:\n" ++
        String.join (causes.zipIdx.map fun (cause, i) => s!"    {i}: " ++ cause ++ "\n")

/-! ### Reading -/

/-- The configuration in a file. Only a file that cannot be opened is named in the failure. -/
def readConfig (files : Files) (path : String) : Except Failure Config :=
  match files path with
  | .error .isDirectory => .error ⟨FileError.isDirectory.message, []⟩
  | .error e => .error ⟨"opening " ++ path, [e.message]⟩
  | .ok bytes =>
    match Config.ofBytes? bytes with
    | some config => .ok config
    | none => .error ⟨"parsing engine config " ++ path, ["invalid configuration"]⟩

/-- The bytes of a file. -/
def readBytes (files : Files) (path : String) : Except Failure Bytes :=
  match files path with
  | .ok bytes => .ok bytes
  | .error e => .error ⟨"reading " ++ path, [e.message]⟩

/-- The script in a file that is to be listed. -/
def readListed (files : Files) (path : String) : Except Failure Script := do
  match Script.parse (← readBytes files path) with
  | .ok script => return script
  | .error e => throw (.ofChain e.messages)

/-- The script in a file that is to be run. -/
def readScript (files : Files) (path : String) : Except Failure Script := do
  match Script.parse (← readBytes files path) with
  | .ok script => return script
  | .error e => throw ⟨"loading script " ++ path, e.messages⟩

/-! ### Doing -/

/-- What the program has to write, and where if not to the standard output. -/
structure Product where
  text : String
  file : Option String := none
  deriving DecidableEq, Repr

/-- Carries out a command. -/
def Command.carryOut (files : Files) (traces : TraceSet) (fuel : Nat) (config : Config) :
    Command → Array Notice × Except Failure Product
  | .disasm input output =>
    match readListed files input with
    | .error failure => (#[], .error failure)
    | .ok script =>
      let entries := Listing.ofScript script
      let said := Listing.notices entries ++ [.listed input entries.length script.data.size]
      (said.toArray, .ok ⟨Doc.Yaml.render (Listing.toDoc entries), output⟩)
  | .run input init ticks =>
    match readScript files input, init.mapM (readScript files) with
    | .error failure, _ | .ok _, .error failure => (#[], .error failure)
    | .ok room, .ok init? =>
      match Headless.run config traces init? room ticks fuel with
      | (said, .ok report) => (said, .ok ⟨Doc.Yaml.render report.toDoc, none⟩)
      | (said, .error e) => (said, .error (.ofChain e.messages))

/-- How the program ends. -/
structure Outcome where
  /-- The exit code. -/
  code : Nat
  stdout : String := ""
  stderr : String := ""
  /-- A file to be made, and its text. -/
  file : Option (String × String) := none
  deriving DecidableEq, Repr

/-- How the program is used. -/
def usage : String :=
  "Usage: roomscript [-c CONFIG] disasm -i INPUT [-o OUTPUT]\n" ++
  "       roomscript [-c CONFIG] run -i INPUT [--init INIT] [-t TICKS]\n"

/-- The end of a program that was not told what to do. -/
def Refusal.outcome : Refusal → Outcome
  | .help => { code := 0, stdout := usage }
  | .misuse => { code := 2, stderr := usage }

/-- The end of a program that failed. -/
def Failure.outcome (f : Failure) : Outcome := { code := 1, stderr := f.report }

/-- The end of a program that could not make its file. -/
def FileError.outcome (e : FileError) : Outcome := Failure.outcome ⟨e.message, []⟩

/-- The end of a program that has something to write. -/
def Product.outcome (p : Product) : Outcome :=
  match p.file with
  | some path => { code := 0, file := some (path, p.text) }
  | none => { code := 0, stdout := p.text }

/-- The notices that a configuration lets through. -/
def reported (config : Config) (said : Array Notice) : Array Notice :=
  said.filter fun n => config.level.any (n.severity.atLeast ·)

/-- Carries out an invocation; gives what is to be reported on the way and how it ends. -/
def Invocation.carryOut (i : Invocation) (files : Files) (traces : TraceSet) (fuel : Nat) :
    Array Notice × Outcome :=
  match i.config.mapM (readConfig files) with
  | .error failure => (#[], failure.outcome)
  | .ok config? =>
    let config := config?.getD {}
    match i.command.carryOut files traces fuel config with
    | (said, .ok product) => (reported config said, product.outcome)
    | (said, .error failure) => (reported config said, failure.outcome)

/-- Carries out a command line. -/
def carryOut (words : List String) (files : Files) (traces : TraceSet) (fuel : Nat) :
    Array Notice × Outcome :=
  match Invocation.ofWords words with
  | .error refusal => (#[], refusal.outcome)
  | .ok invocation => invocation.carryOut files traces fuel

end RoomScript.Cli
