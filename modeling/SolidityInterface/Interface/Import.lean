import SolidityInterface.Interface.Placement
import SolidityInterface.Projection.Scope

/-
  The imports of a contract, and what becomes of them in its interface. An import
  that provides a base of the contract turns into an import of the interface of
  that base and into an entry of the list of bases; any other import of a type in
  use is an import of the file itself.
-/

namespace SolidityInterface

/-- An import of a file. -/
structure ImportEdge where
  /-- The path as it is written. -/
  declared : String
  /-- The file it leads to. -/
  target : Path
  /-- The name of that file without its extension. -/
  name : String
  /-- Whether the file was looked up under the modules root. -/
  isFromModules : Bool
deriving DecidableEq

namespace Layout

/-- The edge of an import that stands in a given file, if it leads to a nameable
path. A path that starts with a dot is seen from the directory of the file, any other
from the modules root. -/
def edge? (l : Layout) (source : Path) (declared : String) : Option ImportEdge :=
  let isFromModules := !Text.startsWith declared "."
  let start := if isFromModules then l.modulesRoot else source.parent
  let path := Path.ofString declared
  (l.cwd.resolve? (start.join path)).map fun target =>
    { declared, isFromModules, target, name := path.stem }

/-- The edges of the imports of a record, in order, if all lead to nameable paths. -/
def edges? (l : Layout) (r : Record) : Option (List ImportEdge) :=
  r.imports.mapM fun i => l.edge? r.path i.path

end Layout

/-- What the synthesis of a file hands to the files that import it. -/
structure Artifact where
  source : Path
  /-- The path to import. -/
  output : Path
  name : String
  /-- The text of the interface that was written. -/
  text : Option String := none
  /-- The names of types in that text. -/
  uses : Uses := []
  isEmitted : Bool := false

namespace ImportEdge

/-- The base that an import provides: one named like the file, or else one named
like its contract. -/
def inheritedBase? (e : ImportEdge) (contract : Option String) (bases : List DottedName) :
    Option DottedName :=
  if DottedName.ofString e.name ∈ bases then some (DottedName.ofString e.name)
  else (contract.map DottedName.ofString).filter (· ∈ bases)

end ImportEdge

/-- An import in use, with the record of its target and the artifact it got. -/
structure UsedImport where
  edge : ImportEdge
  target : Record
  artifact : Artifact

namespace UsedImport

/-- The base that the import provides to a contract with the given bases. -/
def base? (u : UsedImport) (bases : List DottedName) : Option DottedName :=
  u.edge.inheritedBase? u.target.name bases

/-- The line of the import in an interface that lies in the directory `start`. -/
def line (l : Layout) (start : Path) (bases : List DottedName) (u : UsedImport) : String :=
  let target := if (u.base? bases).isSome then u.artifact.output else u.target.path
  "import \x22" ++ l.relativeImport target start ++ "\x22;"

/-- The interface that the first of some imports provides for a base. -/
def providerOf (us : List UsedImport) (bases : List DottedName) (base : DottedName) :
    Option String :=
  (us.find? fun u => u.base? bases = some base).map fun u => u.artifact.name

end UsedImport

/-- The names an interface inherits from, in the order of the bases. -/
def inheritedNames (bases : List DottedName) (us : List UsedImport) : List String :=
  bases.filterMap (UsedImport.providerOf us bases)

end SolidityInterface
