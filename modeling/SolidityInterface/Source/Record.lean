import SolidityInterface.Declaration.Grammar
import SolidityInterface.Source.License
import SolidityInterface.Json.Basic
import SolidityInterface.Distinct
import SolidityInterface.Path

/-
  Records: what the generator keeps of a source file. A record stands for the one
  contract of the file that is named like the file, or else for the first. A
  missing file has a record too, which declares nothing.
-/

namespace SolidityInterface

/-- What is known about one source file. -/
structure Record where
  path : Path
  /-- Whether there is such a file. -/
  isPresent : Bool
  pragma : Option PragmaDirective := none
  kind : Option ContractKind := none
  name : Option String := none
  isAbstract : Bool := false
  bases : List DottedName := []
  members : List Member := []
  imports : List ImportDirective := []
  /-- The structs of the contract, then those of the file. -/
  structs : List StructDecl := []
  /-- The enums of the contract, then those of the file. -/
  enums : List EnumDecl := []
  /-- The names of the contract, its structs and its enums, each once. -/
  declared : List String := []
  /-- The licence that the source declares, or else the configured one. -/
  license : Json := .null

/-- Why a source file has no record. -/
inductive RecordError where
  | endless
  | refused (error : ParseError)
  | noPragma
  | noContract
deriving DecidableEq

namespace RecordError

/-- Whether the fault is reported as one of the source file. -/
def isMalformed : RecordError → Bool
  | endless => false
  | refused e => e.isSyntax
  | noPragma | noContract => true

/-- What is wrong with the source. -/
def reason : RecordError → String
  | endless => "Endless"
  | refused e => s!"Syntax error: {e.message}"
  | noPragma => "No pragma found!"
  | noContract => "No contract definition found!"

/-- The message about the file at a path. -/
def message (path : Path) (e : RecordError) : String := s!"{path.render}: {e.reason}"

end RecordError

namespace SourceUnit

/-- The pragma on the compiler's version, or else the first. -/
def mainPragma? (u : SourceUnit) : Option PragmaDirective :=
  (u.pragmas.find? (·.name = "solidity")).or u.pragmas.head?

/-- The contract with the given name, or else the first. -/
def mainContract? (u : SourceUnit) (name : String) : Option Contract :=
  (u.contracts.find? (·.name = name)).or u.contracts.head?

end SourceUnit

namespace Record

/-- The record of a file that is not there. -/
def missing (path : Path) : Record := { path, isPresent := false }

/-- The record of a file with the given declarations. -/
def ofUnit (path : Path) (u : SourceUnit) (license : Json) : Except RecordError Record :=
  match u.mainPragma? with
  | none => .error .noPragma
  | some pragma =>
    match u.mainContract? path.stem with
    | none => .error .noContract
    | some c =>
      let structs := c.structs ++ u.structs
      let enums := c.enums ++ u.enums
      .ok {
        path, pragma := some pragma, isPresent := true, kind := some c.kind, name := some c.name
        isAbstract := c.isAbstract, bases := c.bases, members := c.members, imports := u.imports
        structs, enums, license
        declared := Distinct.ofList (c.name :: structs.map (·.name) ++ enums.map (·.name)) }

/-- The licence of a source text, or the given one if it declares none. -/
def licenseOf (source : String) (fallback : Json) : Json :=
  match License.ofSource? source with
  | some identifier => .text identifier
  | none => fallback

/-- The record of a file with the given text. -/
def ofSource (path : Path) (source : String) (fallback : Json) : Except RecordError Record :=
  match SourceUnit.ofSource source with
  | .error .endless => .error .endless
  | .error (.refused e) => .error (.refused e)
  | .ok u => ofUnit path u (licenseOf source fallback)

/-- The name of the interface: an interface keeps its own. -/
def interfaceName? (r : Record) : Option String :=
  r.name.map fun n => if r.kind = some .interface then n else "I" ++ n

/-- Whether an interface is to be written. Interfaces and libraries are imported
as they are. -/
def needsInterface (r : Record) : Bool := r.isPresent && r.kind = some .contract

/-- The names of the structs. -/
def structNames (r : Record) : List String := r.structs.map (·.name)

/-- The names of the enums. -/
def enumNames (r : Record) : List String := r.enums.map (·.name)

end Record

end SolidityInterface
