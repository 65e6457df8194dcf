import SolidityInterface.Path
import SolidityInterface.Text.Newline

/-
  The host of a run: a disk, a working directory and two channels for lines of
  text. What the generator does to its surroundings goes through this class. A disk
  takes paths as texts; it limits their length and the length of each name.
-/

namespace SolidityInterface

/-- What lies at a path. -/
inductive EntryKind where
  | file | directory
deriving DecidableEq

/-- Why a disk refuses something. -/
inductive DiskFault where
  | missing
  | exists
  | notADirectory
  | isADirectory
  /-- The path or a name in it is longer than the disk allows. -/
  | tooLong
  /-- The path holds a null character. -/
  | nullCharacter
deriving DecidableEq

namespace DiskFault

/-- Whether a fault says only that nothing is there. -/
def isAbsence : DiskFault → Bool
  | missing | notADirectory => true
  | «exists» | isADirectory | tooLong | nullCharacter => false

/-- The bytes that the text of a path can have. -/
def maxPath : Nat := 4095

/-- The bytes that a name can have. -/
def maxName : Nat := 255

/-- What is wrong with the text of a path, whatever is on the disk. -/
def ofText? (path : String) : Option DiskFault :=
  if path.toList.contains '\x00' then some nullCharacter
  else if path.isEmpty then some missing
  else if maxPath < path.utf8ByteSize then some tooLong
  else none

end DiskFault

/-- A disk, a working directory and two channels. -/
class Host (m : Type → Type) where
  /-- The working directory. -/
  cwd : m Path
  /-- What lies at a path. -/
  kind : String → m (Except DiskFault EntryKind)
  /-- The bytes of a file. -/
  bytes : String → m (Except DiskFault ByteArray)
  /-- The names in a directory, in some order, with what they stand for. -/
  names : String → m (Except DiskFault (List (String × EntryKind)))
  /-- Makes a directory in one that is there. -/
  makeDirectory : String → m (Except DiskFault Unit)
  /-- Writes a file into a directory that is there. -/
  put : String → String → m (Except DiskFault Unit)
  /-- Prints a line. -/
  say : String → m Unit
  /-- Prints a line about something that is not as it should be. -/
  complain : String → m Unit

/-- Why a file has no text. -/
inductive ReadFault where
  | unreadable (fault : DiskFault)
  /-- Its bytes stand for no text. -/
  | undecodable
deriving DecidableEq

namespace Host

variable {m : Type → Type} [Monad m] [Host m]

/-- Whether there is something at a path. -/
def isPresent (path : String) : m Bool := return (← kind path) matches .ok _

/-- Whether there is a directory at a path. -/
def isDirectory (path : String) : m Bool := return (← kind path) matches .ok .directory

/-- The text of a file. -/
def text (path : String) : m (Except ReadFault String) := do
  match ← bytes path with
  | .error e => return .error (.unreadable e)
  | .ok b =>
    match Text.ofBytes? b with
    | some s => return .ok s
    | none => return .error .undecodable

/-- Makes one directory, or finds it made. -/
def ensureDirectory (path : String) : m (Except DiskFault Unit) := do
  match ← makeDirectory path with
  | .ok () => return .ok ()
  | .error e => if ← isDirectory path then return .ok () else return .error e

/-- Makes a directory and the directories above it that are missing. The segments
of the path are given from the last to the first. -/
def ensureDirectories (root : Path.Root) : List String → m (Except DiskFault Unit)
  | [] => ensureDirectory (Path.render ⟨root, []⟩)
  | s :: above => do
    let path := Path.render ⟨root, (s :: above).reverse⟩
    match ← makeDirectory path with
    | .ok () => return .ok ()
    | .error .missing =>
      match ← ensureDirectories root above with
      | .ok () => ensureDirectory path
      | .error e => return .error e
    | .error e => if ← isDirectory path then return .ok () else return .error e

/-- Writes a file, and makes its directory if need be. -/
def write (p : Path) (content : String) : m (Except DiskFault Unit) := do
  match ← ensureDirectories p.root p.parent.segments.reverse with
  | .ok () => put p.render content
  | .error e => return .error e

end Host

end SolidityInterface
