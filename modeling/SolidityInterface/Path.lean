import SolidityInterface.Text.Split

/-
  Paths as text: a root and a list of segments. Reading a path drops empty
  segments and single dots; two dots are kept until the path is resolved against
  a working directory, which is done without looking at any disk.
-/

namespace SolidityInterface

/-- How a path starts. -/
inductive Path.Root where
  /-- At the working directory. -/
  | relative
  /-- At the root. -/
  | slash
  /-- With two slashes, which a system may read in its own way. -/
  | doubleSlash
deriving DecidableEq

/-- A path. -/
structure Path where
  root : Path.Root
  segments : List String
deriving DecidableEq

namespace Path

/-- Whether a piece of a text is kept as a segment. -/
def isSegment (s : String) : Bool := s ≠ "" && s ≠ "."

/-- The root that a text starts with: two slashes count only if no third follows. -/
def rootOf : List Char → Root
  | '/' :: '/' :: '/' :: _ => .slash
  | '/' :: '/' :: _ => .doubleSlash
  | '/' :: _ => .slash
  | _ => .relative

/-- Reads a path. -/
def ofString (s : String) : Path :=
  ⟨rootOf s.toList, (Text.splitString '/' s).filter isSegment⟩

/-- The text of a root. -/
def Root.render : Root → String
  | .relative => ""
  | .slash => "/"
  | .doubleSlash => "//"

/-- The text of a path; the empty one is a dot. -/
def render (p : Path) : String :=
  if p.root = .relative ∧ p.segments = [] then "."
  else p.root.render ++ "/".intercalate p.segments

/-- Whether a path starts at the root. -/
def isAbsolute (p : Path) : Bool := p.root ≠ .relative

/-- The path `q` as seen from the directory `p`. -/
def join (p q : Path) : Path :=
  if q.isAbsolute then q else ⟨p.root, p.segments ++ q.segments⟩

/-- The directory a path lies in. -/
def parent (p : Path) : Path := ⟨p.root, p.segments.dropLast⟩

/-- The last segment, if there is one. -/
def name (p : Path) : String := p.segments.getLastD ""

/-- A file name without its last extension. A dot at either end of the name
starts none. -/
def stemOf (name : List Char) : List Char :=
  let extension := name.reverse.takeWhile (· ≠ '.')
  let stem := name.take (name.length - extension.length - 1)
  if extension.isEmpty || stem.isEmpty then name else stem

/-- The name of a file without its last extension. -/
def stem (p : Path) : String := String.ofList (stemOf p.name.toList)

/-- Drops a segment for each pair of dots behind it; at the root they count for
nothing. `above` holds the segments so far, the last first. -/
def collapse (above : List String) : List String → List String
  | [] => above.reverse
  | s :: rest => if s = ".." then collapse above.tail rest else collapse (s :: above) rest

/-- The path from the root, without pairs of dots, of a path seen from the
working directory `cwd`. -/
def resolve (cwd p : Path) : Path := ⟨.slash, collapse [] (cwd.join p).segments⟩

/-- Whether a path can be the path of something: no segment holds a null character. -/
def isNameable (p : Path) : Bool := p.segments.all fun s => !s.toList.contains '\x00'

/-- The resolved path, if it can be the path of something. -/
def resolve? (cwd p : Path) : Option Path := if p.isNameable then some (cwd.resolve p) else none

/-- The segments of `p` below `base`, if it lies there. -/
def below? (p base : Path) : Option (List String) :=
  if p.root = base.root then base.segments.isPrefixOf? p.segments else none

/-- The steps from one list of segments to another: up to where they part, then
down. -/
def steps : List String → List String → List String
  | a :: start, b :: target =>
    if a = b then steps start target else ".." :: start.map (fun _ => "..") ++ (b :: target)
  | start, target => start.map (fun _ => "..") ++ target

/-- The relative path from the directory `start` to `target`. -/
def relativeFrom (cwd target start : Path) : Path :=
  ⟨.relative, steps (resolve cwd start).segments (resolve cwd target).segments⟩

end Path

end SolidityInterface
