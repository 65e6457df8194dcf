import SolidityInterface.CommandLine.Run

/-
  The command as a program: the disk and the channels are those of the system.
-/

namespace SolidityInterface

namespace Disk

/-- Runs an action on the disk, and gives nothing if the disk refuses. -/
def attempt {α : Type} (action : IO α) : IO (Option α) := do
  try return some (← action) catch _ => return none

/-- The fault that the text of a path has, whatever is on the disk. -/
def textFault? (path : String) : Option DiskFault :=
  match DiskFault.ofText? path with
  | some e => some e
  | none =>
    if (Text.splitString '/' path).any fun s => decide (DiskFault.maxName < s.utf8ByteSize) then
      some .tooLong
    else none

/-- The result of an action at a path, or the given fault if the disk refuses. -/
def guarded {α : Type} (path : String) (otherwise : IO DiskFault) (action : IO α) :
    IO (Except DiskFault α) := do
  match textFault? path with
  | some e => return .error e
  | none =>
    match ← attempt action with
    | some a => return .ok a
    | none => return .error (← otherwise)

/-- What lies at a path. -/
def kind (path : String) : IO (Except DiskFault EntryKind) :=
  guarded path (return .missing) do
    if ← (← IO.FS.realPath path).isDir then return .directory else return .file

/-- The fault of a path whose directory is missing, or is not one, or else the given
one. -/
def faultAt (path : String) (otherwise : DiskFault) : IO DiskFault := do
  match ← kind (Path.ofString path).parent.render with
  | .error _ => return .missing
  | .ok .file => return .notADirectory
  | .ok .directory => return otherwise

/-- The fault of a path where a directory stands in the way, or else what `faultAt`
says. -/
def faultOf (path : String) (otherwise : DiskFault) : IO DiskFault := do
  match ← kind path with
  | .ok .directory => return .isADirectory
  | _ => faultAt path otherwise

end Disk

instance : Host IO where
  cwd := return Path.ofString (← IO.currentDir).toString
  kind := Disk.kind
  bytes path := Disk.guarded path (Disk.faultOf path .missing) (IO.FS.readBinFile path)
  names path :=
    Disk.guarded path (Disk.faultAt path .notADirectory) do
      (← (← IO.FS.realPath path).readDir).toList.mapM fun e => do
        return (e.fileName, if ← e.path.isDir then .directory else .file)
  makeDirectory path := Disk.guarded path (Disk.faultAt path .exists) (IO.FS.createDir path)
  put path content :=
    Disk.guarded path (Disk.faultOf path .exists) (IO.FS.writeFile path content)
  say line := IO.println line
  complain line := IO.eprintln line

namespace CommandLine

/-- How the command is called. -/
def usage : String :=
  "usage: " ++ name ++ " [-h] [--modules-root PATH] [--target-root PATH] [--license SPDX]"
    ++ " [--only-raw-types] [-q] [-c FILE] [-v] src [src ...]"

/-- What an ending prints, and the status of the program. -/
def conclude : Ending → IO UInt32
  | .status code => return code.toUInt32
  | .explained => do
    IO.println usage
    return 0
  | .misused e => do
    IO.eprintln usage
    IO.eprintln (usageLine e)
    return 2
  | .unsettled e => do
    IO.eprintln ("Error: " ++ e.message)
    return 1
  | .unnameable => do
    IO.eprintln "Error: A path holds a null character"
    return 1
  | .failed f => do
    IO.eprintln ("Error: " ++ f.message)
    return 1

end CommandLine

end SolidityInterface

/-- Generates the interfaces of the contracts that are named on the command line. -/
def main (words : List String) : IO UInt32 := do
  SolidityInterface.CommandLine.conclude
    (← SolidityInterface.CommandLine.run (Nat.pow 2 60) words)
