import SolidityInterface.CommandLine.Arguments
import SolidityInterface.Glob.Expand
import SolidityInterface.Run.Schedule

/-
  The command: it reads the settings, puts the switches on top, finds the sources,
  runs a session on them, and prints the report and the interfaces of the sources.
-/

namespace SolidityInterface.CommandLine

/-- The name of the command. -/
def name : String := "interfacer"

/-- How the command ends. -/
inductive Ending where
  /-- With a status. -/
  | status (code : Nat)
  /-- With an explanation of the command. -/
  | explained
  /-- With a complaint about its arguments. -/
  | misused (error : UsageError)
  /-- With settings that nobody can read. -/
  | unsettled (error : SettingsError)
  /-- With a pattern that leads to a path with a null character. -/
  | unnameable
  /-- With a failure that is not a fault of a source. -/
  | failed (failure : Failure)

/-- The line about arguments that are refused. -/
def usageLine (e : UsageError) : String := name ++ ": error: " ++ e.message

/-- The settings that switches put on top. -/
def overrides (a : Arguments) : List (String × Json) :=
  [(Setting.modulesRoot.option, a.modulesRoot.getD .null),
    (Setting.targetRoot.option, a.targetRoot.getD .null),
    (Setting.license.option, a.license.getD .null),
    (Setting.onlyRawTypes.option, if a.onlyRawTypes then .bool true else .null),
    (Setting.logFiles.option, if a.isQuiet then .bool false else .null)]

variable {m : Type → Type} [Monad m] [Host m]

/-- The settings of a call. An empty name of a file is no file. -/
def settings (a : Arguments) : m (Except SettingsError Settings) := do
  let base ← match a.config.bind Json.text? with
    | some path => if path.isEmpty then pure (.ok {}) else Settings.load path
    | none => pure (.ok {})
  return base.bind fun s => s.override (overrides a)

/-- Prints an error and ends. -/
def refuse (message : String) : m Ending := do
  Host.complain ("Error: " ++ message)
  return .status 1

/-- Ends after a failure. -/
def fail (f : Failure) : m Ending :=
  match f with
  | .malformed path e => if e.isMalformed then refuse (e.message path) else return .failed f
  | _ => return .failed f

/-- The lines about the interfaces of the sources. -/
def resultLines (sources : List String) (artifacts : List (Option Artifact)) : List String :=
  (sources.zip artifacts).filterMap fun (source, artifact) =>
    (artifact.filter (·.isEmitted)).map fun a =>
      "Interface for " ++ source ++ " generated at: " ++ a.output.render

/-- Generates the interfaces of some sources. -/
def generate (rounds : Nat) (a : Arguments) (s : Settings) (sources : List String) : m Ending := do
  let session : Session := { options := s.options (← Host.cwd) }
  match ← session.run rounds (sources.map Path.ofString) with
  | (.error f, _) => fail f
  | (.ok artifacts, session) =>
    (session.report.lines a.isVerbose).forM Host.complain
    if session.options.logs then (resultLines sources artifacts).forM Host.say
    return .status 0

/-- Runs the command. A session makes at most a number of rounds. -/
def run (rounds : Nat) (words : List String) : m Ending := do
  match Arguments.ofWords words with
  | .error e => return .misused e
  | .ok a =>
    if a.wantsHelp then return .explained
    match ← settings a with
    | .error e => if e.isPlain then refuse e.message else return .unsettled e
    | .ok s =>
      match ← Glob.expand a.sources with
      | .error _ => return .unnameable
      | .ok sources =>
        if sources.isEmpty then refuse "No source file specified!"
        else generate rounds a s sources

end SolidityInterface.CommandLine
