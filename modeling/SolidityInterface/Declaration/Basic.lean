import SolidityInterface.Declaration.TypeName

/-
  The declarations of a source file. Bodies and initial values are not kept: an
  interface needs signatures and type names only.
-/

namespace SolidityInterface

/-- Who may use a function or a variable. -/
inductive Visibility where
  /-- Nothing is written. -/
  | unspecified
  | pub | priv | internal | external
deriving DecidableEq

/-- The word for a visibility. -/
def Visibility.word : Visibility → String
  | unspecified => "default"
  | pub => "public"
  | priv => "private"
  | internal => "internal"
  | external => "external"

/-- The visibility that a word stands for. -/
def Visibility.ofWord? : String → Option Visibility
  | "default" => some unspecified
  | "public" => some pub
  | "private" => some priv
  | "internal" => some internal
  | "external" => some external
  | _ => none

/-- What a function promises about the state. -/
inductive StateMutability where
  | view | pure | payable
deriving DecidableEq

/-- The word for a promise about the state. -/
def StateMutability.word : StateMutability → String
  | view => "view"
  | pure => "pure"
  | payable => "payable"

/-- How a state variable is stored. -/
inductive StorageMode where
  | constant | immutable | transient
deriving DecidableEq

/-- The word for a mode of storage. -/
def StorageMode.word : StorageMode → String
  | constant => "constant"
  | immutable => "immutable"
  | transient => "transient"

/-- Where the data of a parameter lie. -/
inductive DataLocation where
  | storage | memory | calldata
  /-- Another word in the place of a location, kept as it is. -/
  | other (word : String)
deriving DecidableEq

/-- The word for a location. -/
def DataLocation.word : DataLocation → String
  | storage => "storage"
  | memory => "memory"
  | calldata => "calldata"
  | other w => w

/-- The location a word stands for; no word is no location. -/
def DataLocation.ofWord? : String → Option DataLocation
  | "" => none
  | "storage" => some storage
  | "memory" => some memory
  | "calldata" => some calldata
  | w => some (other w)

/-- A parameter, a member of a struct or a state variable. -/
structure Variable where
  type : TypeName
  name : Option String := none
  visibility : Visibility := .internal
  mode : Option StorageMode := none
  location : Option DataLocation := none
  isIndexed : Bool := false
deriving DecidableEq

/-- A struct and its members. -/
structure StructDecl where
  name : String
  members : List Variable := []
deriving DecidableEq

/-- An enum and its values. -/
structure EnumDecl where
  name : String
  members : List String := []
deriving DecidableEq

/-- Whether a function is an ordinary one or one that the language calls itself. -/
inductive FunctionKind where
  | ordinary
  /-- A special function, by the word that introduces it. -/
  | special (word : String)
deriving DecidableEq

/-- The word for a kind of function. -/
def FunctionKind.word : FunctionKind → String
  | ordinary => "function"
  | special w => w

/-- The header of a function. Special functions have no name. -/
structure FunctionDecl where
  name : Option String
  kind : FunctionKind := .ordinary
  parameters : List Variable := []
  returns : List Variable := []
  visibility : Visibility := .unspecified
  mutability : Option StateMutability := none
  modifiers : List DottedName := []
  isVirtual : Bool := false
  isOverride : Bool := false
deriving DecidableEq

/-- A member of a contract. -/
inductive Member where
  | function (decl : FunctionDecl)
  /-- A statement that declares state variables. -/
  | state (decls : List Variable)
  | struct (decl : StructDecl)
  | enum (decl : EnumDecl)
deriving DecidableEq

/-- What kind of definition a contract is. -/
inductive ContractKind where
  | contract | interface | library
deriving DecidableEq

/-- The word for a kind of definition. -/
def ContractKind.word : ContractKind → String
  | contract => "contract"
  | interface => "interface"
  | library => "library"

/-- The kind of definition a word stands for. -/
def ContractKind.ofWord? : String → Option ContractKind
  | "contract" => some contract
  | "interface" => some interface
  | "library" => some library
  | _ => none

/-- A contract, an interface or a library. -/
structure Contract where
  name : String
  kind : ContractKind
  isAbstract : Bool := false
  bases : List DottedName := []
  members : List Member := []
deriving DecidableEq

namespace Contract

/-- The functions of a contract, in order. -/
def functions (c : Contract) : List FunctionDecl :=
  c.members.filterMap fun | .function d => some d | _ => none

/-- The statements of a contract that declare state variables, in order. -/
def stateVariables (c : Contract) : List (List Variable) :=
  c.members.filterMap fun | .state vs => some vs | _ => none

/-- The structs of a contract, in order. -/
def structs (c : Contract) : List StructDecl :=
  c.members.filterMap fun | .struct d => some d | _ => none

/-- The enums of a contract, in order. -/
def enums (c : Contract) : List EnumDecl :=
  c.members.filterMap fun | .enum d => some d | _ => none

end Contract

/-- A pragma: its name and the rest of its text. -/
structure PragmaDirective where
  name : String
  value : String
deriving DecidableEq

/-- An import of another file. -/
structure ImportDirective where
  path : String
  /-- The name the whole file is bound to. -/
  unitAlias : Option String := none
  /-- The names taken from the file, each with the name it gets here. -/
  symbols : List (String × Option String) := []
deriving DecidableEq

/-- The declarations of one source file. -/
structure SourceUnit where
  pragmas : List PragmaDirective := []
  imports : List ImportDirective := []
  contracts : List Contract := []
  structs : List StructDecl := []
  enums : List EnumDecl := []
deriving DecidableEq

end SolidityInterface
