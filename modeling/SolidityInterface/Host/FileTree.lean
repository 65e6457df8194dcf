import SolidityInterface.Host.Basic
import SolidityInterface.Table

/-
  A disk held in memory. A path is walked name by name, and each name but the last
  has to lead to a directory, also in front of a dot, which stays, and of two dots,
  which lead up. A slash at the end asks for a directory too.

  A walk remembers the directories it came through, so that a change at its end can
  be handed up to the root.
-/

namespace SolidityInterface

/-- A file with its bytes, or a directory with its entries. -/
inductive FileTree where
  | file (bytes : ByteArray)
  | directory (entries : List (String × FileTree))

namespace FileTree

/-- Whether something is a file or a directory. -/
def entryKind : FileTree → EntryKind
  | file _ => .file
  | directory _ => .directory

/-- A directory with something put under a name. -/
def insert (d : FileTree) (name : String) (new : FileTree) : FileTree :=
  match d with
  | file b => file b
  | directory entries => directory (Table.put name new entries)

/-- A directory with a name taken out. -/
def erase (d : FileTree) (name : String) : FileTree :=
  match d with
  | file b => file b
  | directory entries => directory (Table.erase name entries)

/-- A place on a disk, with the way to it. Nothing need lie there. -/
structure Place where
  /-- The names on the way, the last first, with the directories they stand in. -/
  way : List (String × FileTree) := []
  /-- What lies there. -/
  content? : Option FileTree

namespace Place

/-- The place above. The root is above itself. -/
def up (p : Place) : Place :=
  match p.way with
  | [] => p
  | (_, d) :: way => ⟨way, some d⟩

/-- The place that some steps lead to. -/
def walk (p : Place) : List String → Except DiskFault Place
  | [] => .ok p
  | s :: rest =>
    match p.content? with
    | some (.directory entries) =>
      if s = "." then p.walk rest
      else if s = ".." then p.up.walk rest
      else if DiskFault.maxName < s.utf8ByteSize then .error .tooLong
      else walk ⟨(s, .directory entries) :: p.way, Table.get? s entries⟩ rest
    | some (.file _) => .error .notADirectory
    | none => .error .missing

/-- What lies at a place. -/
def content (p : Place) : Except DiskFault FileTree :=
  match p.content? with
  | some t => .ok t
  | none => .error .missing

/-- The whole disk, with something put at a place. -/
def put (p : Place) (new : FileTree) : FileTree :=
  p.way.foldl (fun below (name, d) => d.insert name below) new

/-- The whole disk, with a place cleared. Nothing takes the root away. -/
def clear (p : Place) : FileTree :=
  match p.way with
  | [] => .directory []
  | (name, d) :: _ => p.up.put (d.erase name)

end Place

/-- The steps of a walk along a path: its names, single dots included, and one dot
more if a slash stands last. -/
def steps (path : String) : List String :=
  let names := (Text.splitString '/' path).filter (· ≠ "")
  if path.toList.getLast? = some '/' then names ++ ["."] else names

/-- The place of a path, as seen from the directory with the segments `cwd`. -/
def place (t : FileTree) (cwd : List String) (path : String) : Except DiskFault Place :=
  match DiskFault.ofText? path with
  | some e => .error e
  | none =>
    let start := if Text.startsWith path "/" then [] else cwd
    Place.walk { content? := some t } (start ++ steps path)

/-- What lies at a path. -/
def find (t : FileTree) (cwd : List String) (path : String) : Except DiskFault FileTree := do
  (← t.place cwd path).content

/-- The kind of what lies at a path. -/
def kind (t : FileTree) (cwd : List String) (path : String) : Except DiskFault EntryKind :=
  (t.find cwd path).map entryKind

/-- The bytes of a file. -/
def bytes (t : FileTree) (cwd : List String) (path : String) : Except DiskFault ByteArray := do
  match ← t.find cwd path with
  | file b => return b
  | directory _ => .error .isADirectory

/-- The names in a directory, with what they stand for. -/
def names (t : FileTree) (cwd : List String) (path : String) :
    Except DiskFault (List (String × EntryKind)) := do
  match ← t.find cwd path with
  | file _ => .error .notADirectory
  | directory entries => return entries.map fun (name, t) => (name, t.entryKind)

/-- Makes a directory. -/
def makeDirectory (t : FileTree) (cwd : List String) (path : String) :
    Except DiskFault FileTree := do
  let p ← t.place cwd path
  match p.content? with
  | some _ => .error .exists
  | none => return p.put (.directory [])

/-- Writes a file. -/
def put (t : FileTree) (cwd : List String) (path : String) (content : ByteArray) :
    Except DiskFault FileTree := do
  let p ← t.place cwd path
  match p.content? with
  | some (.directory _) => .error .isADirectory
  | _ => return p.put (.file content)

/-- Takes a file away. -/
def remove (t : FileTree) (cwd : List String) (path : String) : Except DiskFault FileTree := do
  let p ← t.place cwd path
  match p.content? with
  | some (.file _) => return p.clear
  | some (.directory _) => .error .isADirectory
  | none => .error .missing

mutual

/-- The files, each with the names that lead to it. -/
def files : FileTree → List (List String × ByteArray)
  | file b => [([], b)]
  | directory entries => filesIn entries

/-- The files of some entries. -/
def filesIn : List (String × FileTree) → List (List String × ByteArray)
  | [] => []
  | (name, t) :: rest => t.files.map (fun (names, b) => (name :: names, b)) ++ filesIn rest

end

/-- A number that no less than counts the files and their bytes. -/
def size (t : FileTree) : Nat := t.files.foldl (fun n (_, b) => n + b.size + 1) 0

end FileTree

/-- A host held in memory. -/
structure Machine where
  cwd : Path := ⟨.slash, []⟩
  disk : FileTree := .directory []
  /-- The lines that were printed. -/
  out : List String := []
  /-- The lines of complaint. -/
  err : List String := []

namespace Machine

/-- Changes the disk, unless it refuses. -/
def update (f : FileTree → Except DiskFault FileTree) : StateM Machine (Except DiskFault Unit) :=
  fun s =>
    match f s.disk with
    | .ok disk => (.ok (), { s with disk })
    | .error e => (.error e, s)

instance : Host (StateM Machine) where
  cwd := return (← get).cwd
  kind path := do
    let s ← get
    return s.disk.kind s.cwd.segments path
  bytes path := do
    let s ← get
    return s.disk.bytes s.cwd.segments path
  names path := do
    let s ← get
    return s.disk.names s.cwd.segments path
  makeDirectory path := do
    let cwd := (← get).cwd.segments
    update fun t => t.makeDirectory cwd path
  put path content := do
    let cwd := (← get).cwd.segments
    update fun t => t.put cwd path content.toUTF8
  say line := modify fun s => { s with out := s.out ++ [line] }
  complain line := modify fun s => { s with err := s.err ++ [line] }

end Machine

end SolidityInterface
