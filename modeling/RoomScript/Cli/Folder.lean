import RoomScript.Cli.Program
import RoomScript.Text.Blank

/-!
# Folders in memory

A folder with some files, in which a command line can be carried out without a file system. Paths
are followed from name to name as a file system does: every name but the last has to lead to a
directory, one and two dots lead to a directory itself and to the one above it, and a slash at the
end asks for a directory. Of what is around the folder only the usual top directories and a few
devices are known.
-/

namespace RoomScript.Cli

/-- The devices a path can name. -/
inductive Device
  /-- Holds nothing and takes everything. -/
  | null
  | stdin
  | stdout
  | stderr
  /-- Takes nothing. -/
  | full
  deriving DecidableEq, Repr

/-- The devices by their names. -/
def Device.named : List (String × Device) :=
  [("null", .null), ("stdin", .stdin), ("stdout", .stdout), ("stderr", .stderr), ("full", .full)]

/-- A place that can hold files. -/
inductive Directory
  /-- The folder, or a directory in it, by the names that lead there. -/
  | inside (names : List String)
  /-- A directory outside, by the names that lead there from the top. -/
  | outside (names : List String)
  /-- What the folder is in, of which nothing is known. -/
  | around
  deriving DecidableEq, Repr

/-- The directory above. -/
def Directory.parent : Directory → Directory
  | .inside [] | .around => .around
  | .inside names => .inside names.dropLast
  | .outside names => .outside names.dropLast

/-- The directories right below the top. -/
def topDirectories : List String :=
  ["bin", "dev", "etc", "home", "lib", "opt", "proc", "root", "sys", "tmp", "usr", "var"]

/-- What a path leads to. -/
inductive Node
  | file (bytes : Bytes)
  | device (d : Device)
  | directory (d : Directory)
  deriving DecidableEq, Repr

/-- Files by the names that lead to them from the folder. -/
structure Folder where
  files : List (List String × Bytes)

/-- The names of a path, in order. Slashes divide them, so a name can be empty. -/
def pathNames (path : String) : List String :=
  (Text.splitWhere (· = '/') path.toList).map String.ofList

/-- The directory a path starts from. -/
def startOf (path : String) : Directory :=
  if path.startsWith "/" then .outside [] else .inside []

/-- The longest name there can be, in bytes. -/
def longestName : Nat := 255

/-- The longest path there can be, in bytes. -/
def longestPath : Nat := 4095

namespace Folder

/-- The folder of given files, named by their paths. -/
def ofFiles (files : List (String × Bytes)) : Folder :=
  ⟨files.map fun (path, bytes) => (pathNames path, bytes)⟩

/-- What stands under a name in a directory. -/
def child? (folder : Folder) (d : Directory) (name : String) : Option Node :=
  match d with
  | .inside names =>
    let names := names ++ [name]
    match folder.files.lookup names with
    | some bytes => some (.file bytes)
    | none =>
      -- A directory is there as soon as it holds something.
      if folder.files.any fun (file, _) => names.isPrefixOf file then
        some (.directory (.inside names))
      else none
  | .outside [] =>
    if topDirectories.contains name then some (.directory (.outside [name])) else none
  | .outside ["dev"] => (Device.named.lookup name).map .device
  | .outside _ | .around => none

/-- Follows names. -/
def walk (folder : Folder) : Node → List String → Except FileError Node
  | node, [] => .ok node
  | .directory d, name :: rest =>
    if name = "" || name = "." then folder.walk (.directory d) rest
    else if name = ".." then folder.walk (.directory d.parent) rest
    else if longestName < name.utf8ByteSize then .error .nameTooLong
    else
      match folder.child? d name with
      | some node => folder.walk node rest
      | none => .error .notFound
  | .file _, _ :: _ | .device _, _ :: _ => .error .notDirectory

/-- Reads a file. Devices have nothing to read. -/
def read (folder : Folder) : Files := fun path =>
  if longestPath < path.utf8ByteSize then .error .nameTooLong
  else
    match folder.walk (.directory (startOf path)) (pathNames path) with
    | .error e => .error e
    | .ok (.file bytes) => .ok bytes
    | .ok (.device _) => .ok #[]
    | .ok (.directory _) => .error .isDirectory

/-- Where a file that is written ends up. -/
inductive Destination
  /-- In a file that the folder did not have. -/
  | fresh (names : List String)
  /-- In a file that was there before, or outside the folder. -/
  | elsewhere
  | device (d : Device)
  deriving DecidableEq, Repr

/-- Where the file of a given name in a directory ends up. -/
def destinationIn (folder : Folder) (d : Directory) (name : String) :
    Except FileError Destination :=
  match folder.child? d name with
  | some (.file _) => .ok .elsewhere
  | some (.device device) => .ok (.device device)
  | some (.directory _) => .error .isDirectory
  | none =>
    match d with
    | .inside names => .ok (.fresh (names ++ [name]))
    | .outside _ | .around => .ok .elsewhere

/-- Where a file ends up that is written to a path. -/
def destination (folder : Folder) (path : String) : Except FileError Destination :=
  let names := pathNames path
  -- Without the slashes at the end.
  let kept := (names.reverse.dropWhile (· = "")).reverse
  if longestPath < path.utf8ByteSize then .error .nameTooLong
  else
    match kept.getLast? with
    | none => .error .isDirectory
    | some name =>
      match folder.walk (.directory (startOf path)) kept.dropLast with
      | .error e => .error e
      | .ok (.file _) | .ok (.device _) => .error .notDirectory
      | .ok (.directory d) =>
        if name = "." || name = ".." || kept.length < names.length then .error .isDirectory
        else if longestName < name.utf8ByteSize then .error .nameTooLong
        else folder.destinationIn d name

/-- Writes the file of an outcome; gives the outcome that comes of it, and the file with its path if
the folder did not have it. -/
def settle (folder : Folder) (o : Outcome) : Outcome × Option (String × String) :=
  match o.file with
  | none => (o, none)
  | some (path, text) =>
    match folder.destination path with
    | .error e => (e.outcome, none)
    | .ok (.fresh names) => (o, some ("/".intercalate names, text))
    | .ok .elsewhere => (o, none)
    | .ok (.device .stdout) => ({ o with stdout := text }, none)
    | .ok (.device .full) => (FileError.noSpace.outcome, none)
    | .ok (.device _) => (o, none)

/-- Carries out a command line in the folder; gives how it ends and the file it made. -/
def carryOut (folder : Folder) (words : List String) (traces : TraceSet) (fuel : Nat) :
    Outcome × Option (String × String) :=
  folder.settle (Cli.carryOut words folder.read traces fuel).2

end Folder

end RoomScript.Cli
