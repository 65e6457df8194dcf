/-
  Notes about a run: a warning for each source file that could not be found, and
  information about the interfaces that were written or taken as they are.
-/

namespace SolidityInterface

/-- How much a note matters. -/
inductive Severity where
  | warning | info
deriving DecidableEq

/-- The word for a severity. -/
def Severity.word : Severity → String
  | warning => "warning"
  | info => "info"

/-- A note about a run. -/
inductive Note where
  /-- A file was not found; a file that imports it may be named. -/
  | missing (path importer : String)
  /-- An interface was written. -/
  | written (output source : String)
  /-- A source is imported as it is. -/
  | reused (source : String)
deriving DecidableEq

namespace Note

/-- How much a note matters. -/
def severity : Note → Severity
  | missing _ _ => .warning
  | written _ _ | reused _ => .info

/-- The code of a note. -/
def code : Note → String
  | missing _ _ => "W001"
  | written _ _ => "I001"
  | reused _ => "I002"

/-- What a note says. -/
def message : Note → String
  | missing path _ => path ++ " not found: interfaces may not be complete."
  | written output _ => "Interface written to " ++ output
  | reused _ => "Source is already importable as an interface; no file generated."

/-- The file a note is about; it may be empty. -/
def file : Note → String
  | missing _ importer => importer
  | written _ source => source
  | reused source => source

/-- The thing a note is about. -/
def construct : Note → String
  | missing _ _ => "import"
  | written _ _ | reused _ => "interface"

/-- The line for a note. -/
def render (n : Note) : String :=
  let place := if n.file.isEmpty then "" else n.file ++ ": "
  "[" ++ n.severity.word ++ "] " ++ place ++ n.message ++ " (" ++ n.code ++ ")"

end Note

/-- The notes of a run, in order. -/
abbrev Report := List Note

namespace Report

/-- The notes of a severity. -/
def ofSeverity (r : Report) (s : Severity) : Report := r.filter (·.severity = s)

/-- The warnings. -/
def warnings (r : Report) : Report := r.ofSeverity .warning

/-- A line that counts the warnings. All of them are about imports. -/
def summary (r : Report) : String :=
  if r.warnings.isEmpty then "No interfacer warnings."
  else "Interfacer warnings: " ++ toString r.warnings.length ++ " import"

/-- The lines of the notes of one severity, under a title with their number. -/
def block (title : String) (notes : Report) : List String :=
  if notes.isEmpty then []
  else ["", title ++ " (" ++ toString notes.length ++ "):"] ++ notes.map fun n => "  " ++ n.render

/-- The lines of the report: the warnings, and the information if it is asked for. -/
def lines (r : Report) (isVerbose : Bool) : List String :=
  block "Interfacer warnings" r.warnings
    ++ if isVerbose then block "Interfacer info" (r.ofSeverity .info) else []

end Report

end SolidityInterface
