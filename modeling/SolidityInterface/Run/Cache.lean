import SolidityInterface.Source.Record
import SolidityInterface.Report
import SolidityInterface.Host.Basic
import SolidityInterface.Table

/-
  The cache of records. The first request for a path starts a look at the disk;
  whoever asks while the look is on its way, or later, gets what it found, also if
  that was a fault. A path is looked at once.
-/

namespace SolidityInterface

/-- Why a file has no record or no interface. -/
inductive Failure where
  /-- The source is not one that the generator can work with. -/
  | malformed (path : Path) (error : RecordError)
  /-- The bytes of the source stand for no text. -/
  | undecodable (path : Path)
  /-- The disk does not give the source. -/
  | unreadable (path : Path) (fault : DiskFault)
  /-- The path holds a null character. -/
  | unnameable (path : Path)
  /-- A root in the settings is not given as a text. -/
  | unusableRoot
  /-- The disk refuses the interface. -/
  | output (path : Path) (fault : DiskFault)
  /-- A file in an import cycle had no provisional artifact. -/
  | noProvisional (path : Path)
  /-- Another failure ended the run. -/
  | cancelled
deriving DecidableEq

/-- What a failure says. -/
def Failure.message : Failure → String
  | malformed path e => e.message path
  | undecodable path => path.render ++ ": The bytes are not a text"
  | unreadable path _ => path.render ++ ": The file cannot be read"
  | unnameable path => path.render ++ ": The path holds a null character"
  | unusableRoot => "A root in the settings is not a text"
  | output path _ => path.render ++ ": The interface cannot be written"
  | noProvisional path => path.render ++ ": No provisional artifact"
  | cancelled => "The run was given up"

/-- What a look at a path finds. -/
inductive Sighting where
  | absent
  | text (content : String)
  | undecodable
  | refused (fault : DiskFault)
deriving DecidableEq

/-- Looks at a path. -/
def Sighting.take {m : Type → Type} [Monad m] [Host m] (p : Path) : m Sighting := do
  match ← Host.kind p.render with
  | .ok .directory => return .absent
  | .error e => return if e.isAbsence then .absent else .refused e
  | .ok .file =>
    match ← Host.text p.render with
    | .ok content => return .text content
    | .error .undecodable => return .undecodable
    | .error (.unreadable e) => return .refused e

/-- The state of a path in the cache. -/
inductive Load where
  /-- A look is on its way. The file that asked first may be named. -/
  | reading (importer : String)
  | settled (outcome : Except Failure Record)

/-- The records by path, in the order in which they were first asked for. -/
abbrev Cache := Table Path Load

namespace Cache

/-- What is known about a path. -/
def outcome? (c : Cache) (key : Path) : Option (Except Failure Record) :=
  match Table.get? key c with
  | some (.settled outcome) => some outcome
  | _ => none

/-- Asks for a path. Only the first request changes anything. -/
def request (c : Cache) (key : Path) (importer : String) : Cache :=
  if Table.has key c then c else Table.put key (.reading importer) c

/-- What a sighting says about a path. -/
def interpret (license : Json) (key : Path) : Sighting → Except Failure Record
  | .absent => .ok (Record.missing key)
  | .undecodable => .error (.undecodable key)
  | .refused e => .error (.unreadable key e)
  | .text content =>
    match Record.ofSource key content license with
    | .ok r => .ok r
    | .error e => .error (.malformed key e)

/-- The note that a sighting gives rise to. -/
def noteOn (key : Path) (importer : String) : Sighting → Report
  | .absent => [.missing key.render importer]
  | _ => []

/-- Takes in the result of a look, and gives the note about it. -/
def settle (c : Cache) (license : Json) (key : Path) (s : Sighting) : Cache × Report :=
  match Table.get? key c with
  | some (.reading importer) =>
    (Table.put key (.settled (interpret license key s)) c, noteOn key importer s)
  | _ => (c, [])

/-- The paths with a look on its way. -/
def pending (c : Cache) : List Path :=
  c.filterMap fun
    | (key, .reading _) => some key
    | _ => none

/-- The cache without the looks on their way. -/
def dropPending (c : Cache) : Cache :=
  c.filter fun
    | (_, .reading _) => false
    | _ => true

end Cache

end SolidityInterface
