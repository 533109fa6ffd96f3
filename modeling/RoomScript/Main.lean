import RoomScript.Cli.Program

/-!
# The command

Reads the files a command line names, lets `Cli.Invocation.carryOut` decide, and writes what comes
of it. Nothing is decided here.
-/

namespace RoomScript.Cli

/-- How long a thread that does not yield is watched. -/
def patience : Nat := 0x4000000000000000

/-- The file error that a system error stands for. -/
def FileError.ofSystem : IO.Error → FileError
  | .noFileOrDirectory .. => .notFound
  | .permissionDenied .. => .denied
  | .resourceExhausted _ 28 _ => .noSpace
  | .inappropriateType _ code _ =>
    if code = 21 then .isDirectory
    else if code = 20 then .notDirectory
    else .other "inappropriate file"
  | e => .other (toString e)

/-- Reads a file. -/
def readFile (path : String) : IO (Except FileError Bytes) := do
  try
    return .ok (← IO.FS.readBinFile path).data
  catch e => return .error (.ofSystem e)

/-- Makes the file of an outcome, if there is one. -/
def Outcome.settle (o : Outcome) : IO Outcome :=
  match o.file with
  | none => return o
  | some (path, text) => do
    try
      IO.FS.writeFile path text
      return o
    catch e => return (FileError.ofSystem e).outcome

end RoomScript.Cli

open RoomScript Cli in
/-- Lists or runs a room script. -/
def main (words : List String) : IO UInt32 := do
  let outcome ← match Invocation.ofWords words with
    | .error refusal => pure refusal.outcome
    | .ok invocation => do
      let settings ← TraceSet.settingNames.filterMapM fun name =>
        return (← IO.getEnv name).map (name, ·)
      let contents ← invocation.sources.mapM fun path => return (path, ← readFile path)
      let files (path : String) := (contents.lookup path).getD (.error .notFound)
      let (said, outcome) := invocation.carryOut files (.ofSettings (settings.lookup ·)) patience
      said.forM fun notice => IO.eprintln notice.line
      outcome.settle
  IO.print outcome.stdout
  IO.eprint outcome.stderr
  return UInt32.ofNat outcome.code
