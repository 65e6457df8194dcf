import SolidityInterface.Json.Reader
import SolidityInterface.Host.Basic
import SolidityInterface.Interface.Placement
import SolidityInterface.Table
import SolidityInterface.Distinct

/-
  Settings: where modules are looked up, where interfaces go, the licence of files
  that declare none, and two switches. They come from a JSON file and from explicit
  values on top. The values of a file are taken as they are; whether they make
  sense shows when they are needed.
-/

namespace SolidityInterface

/-- The settings. -/
structure Settings where
  modulesRoot : Json := .text "node_modules"
  targetRoot : Json := .text "interfaces"
  license : Json := .text "UNLICENSED"
  /-- Whether stubs with types that a source declares are dropped. -/
  onlyRawTypes : Json := .bool false
  /-- Whether a line is printed for every file. -/
  logFiles : Json := .bool true

/-- One of the settings. -/
inductive Setting where
  | modulesRoot | targetRoot | license | onlyRawTypes | logFiles
deriving DecidableEq

namespace Setting

/-- All settings. -/
def all : List Setting := [modulesRoot, targetRoot, license, onlyRawTypes, logFiles]

/-- The key of a setting in a file. -/
def key : Setting → String
  | modulesRoot => "modulesRoot"
  | targetRoot => "targetRoot"
  | license => "license"
  | onlyRawTypes => "onlyRawTypes"
  | logFiles => "logFiles"

/-- The name of a setting where it is given explicitly. -/
def option : Setting → String
  | modulesRoot => "modules_root"
  | targetRoot => "target_root"
  | license => "license"
  | onlyRawTypes => "only_raw_types"
  | logFiles => "log_files"

end Setting

/-- Why there are no settings. -/
inductive SettingsError where
  | unreadable (path : String)
  /-- The path of the file holds a null character. -/
  | unnameable (path : String)
  /-- The bytes of the file stand for no text. -/
  | undecodable (path : String)
  | invalid (path : String)
  /-- An integer in the file has too many digits. -/
  | oversized (path : String)
  | notAnObject (path : String)
  | unknownOptions (names : List String)
deriving DecidableEq

/-- Whether an error is a plain fault of the settings, of which the user is told. -/
def SettingsError.isPlain : SettingsError → Bool
  | unnameable _ | undecodable _ | oversized _ => false
  | unreadable _ | invalid _ | notAnObject _ | unknownOptions _ => true

/-- The message for an error. -/
def SettingsError.message : SettingsError → String
  | unreadable path => "Cannot read config file " ++ path
  | unnameable path => "Config file " ++ path ++ " has a null character in its path"
  | undecodable path => "Config file " ++ path ++ " is not a text"
  | invalid path => "Invalid JSON in config file " ++ path
  | oversized path => "Config file " ++ path ++ " holds an integer with too many digits"
  | notAnObject path => "Config file " ++ path ++ " must contain a JSON object"
  | unknownOptions names => "Unknown option(s): " ++ ", ".intercalate names

namespace Settings

/-- Changes one setting. -/
def set (s : Settings) (field : Setting) (value : Json) : Settings :=
  match field with
  | .modulesRoot => { s with modulesRoot := value }
  | .targetRoot => { s with targetRoot := value }
  | .license => { s with license := value }
  | .onlyRawTypes => { s with onlyRawTypes := value }
  | .logFiles => { s with logFiles := value }

/-- Takes over one member of an object; a key that names no setting is passed over. -/
def take (s : Settings) (entry : String × Json) : Settings :=
  match Setting.all.find? (·.key = entry.1) with
  | some field => s.set field entry.2
  | none => s

/-- The settings that an object gives. -/
def ofMembers (members : List (String × Json)) : Settings := members.foldl take {}

/-- The keys of an object that name no setting, in order. -/
def unknownKeys (members : List (String × Json)) : List String :=
  (members.map (·.1)).filter fun k => Setting.all.all fun field => field.key ≠ k

/-- The members of the object that a text holds. -/
def membersOf (path text : String) : Except SettingsError (List (String × Json)) :=
  match Json.ofString text with
  | .error .invalid => .error (.invalid path)
  | .error .oversized => .error (.oversized path)
  | .ok (.object members) => .ok members
  | .ok _ => .error (.notAnObject path)

/-- Puts explicit values on top. A null leaves a setting as it is. -/
def override (s : Settings) (values : List (String × Json)) : Except SettingsError Settings :=
  let names := values.map (·.1)
  let unknown := names.filter fun n => Setting.all.all fun field => field.option ≠ n
  if unknown.isEmpty then
    .ok <| values.foldl (fun s (n, v) =>
      match v, Setting.all.find? (·.option = n) with
      | .null, _ => s
      | v, some field => s.set field v
      | _, none => s) s
  else .error (.unknownOptions ((Distinct.ofList unknown).mergeSort fun a b => decide (a ≤ b)))

variable {m : Type → Type} [Monad m] [Host m]

/-- Reads the settings from a file. There is a complaint about each key that names
no setting. -/
def load (path : String) : m (Except SettingsError Settings) := do
  match ← Host.text path with
  | .error (.unreadable .nullCharacter) => return .error (.unnameable path)
  | .error (.unreadable _) => return .error (.unreadable path)
  | .error .undecodable => return .error (.undecodable path)
  | .ok text =>
    match membersOf path text with
    | .error e => return .error e
    | .ok members =>
      for k in unknownKeys members do
        Host.complain ("Warning: Ignoring unknown config key '" ++ k ++ "' in " ++ path)
      return .ok (ofMembers members)

end Settings

/-- The settings as a run takes them. A root that is not given as a text cannot be
used. -/
structure Options where
  /-- The working directory. -/
  cwd : Path
  modulesRoot : Option Path
  targetRoot : Option Path
  /-- The licence of files that declare none. -/
  license : Json
  /-- Whether stubs with types that a source declares are dropped. -/
  rawOnly : Bool
  /-- Whether a line is printed for every file. -/
  logs : Bool

/-- The layout, if both roots can be used. -/
def Options.layout? (o : Options) : Option Layout := do
  return { cwd := o.cwd, modulesRoot := ← o.modulesRoot, targetRoot := ← o.targetRoot }

/-- The options that settings stand for. -/
def Settings.options (s : Settings) (cwd : Path) : Options :=
  { cwd, license := s.license, rawOnly := s.onlyRawTypes.isTruthy, logs := s.logFiles.isTruthy
    modulesRoot := s.modulesRoot.text?.map Path.ofString
    targetRoot := s.targetRoot.text?.map Path.ofString }

end SolidityInterface
