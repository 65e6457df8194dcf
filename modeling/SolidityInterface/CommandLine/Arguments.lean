import SolidityInterface.Json.Basic
import SolidityInterface.Text.Numeral
import SolidityInterface.Text.Quoted
import SolidityInterface.Text.Split

/-
  The arguments of the command. A word that starts with a dash is a switch: long
  ones may be shortened and take a value behind an equals sign or in the next word,
  short ones may be run together and take the rest of their word as a value. An
  equals sign behind the first short switch of a word is dropped. All words behind
  two dashes are operands. The sources are the first unbroken run of operands;
  operands elsewhere, and words with a dash that name no switch, are left over and
  refused in the end.
-/

namespace SolidityInterface

/-- A switch of the command. -/
inductive Switch where
  | help | modulesRoot | targetRoot | license | onlyRawTypes | quiet | config | verbose
deriving DecidableEq

namespace Switch

/-- All switches, in the order in which they are explained. -/
def all : List Switch :=
  [help, modulesRoot, targetRoot, license, onlyRawTypes, quiet, config, verbose]

/-- The spellings of a switch. -/
def spellings : Switch → List String
  | help => ["-h", "--help"]
  | modulesRoot => ["--modules-root"]
  | targetRoot => ["--target-root"]
  | license => ["--license"]
  | onlyRawTypes => ["--only-raw-types"]
  | quiet => ["-q", "--quiet"]
  | config => ["-c", "--config"]
  | verbose => ["-v", "--verbose"]

/-- Whether a switch takes a value. -/
def takesValue : Switch → Bool
  | modulesRoot | targetRoot | license | config => true
  | help | onlyRawTypes | quiet | verbose => false

/-- The name of a switch in messages. -/
def name (s : Switch) : String := "/".intercalate s.spellings

/-- The spellings of all switches. -/
def table : List (String × Switch) := all.flatMap fun s => s.spellings.map fun t => (t, s)

/-- The switch with a spelling. -/
def ofSpelling? (s : String) : Option Switch := table.lookup s

end Switch

/-- Why the arguments are refused. -/
inductive UsageError where
  | ambiguous (word : String) (candidates : List String)
  | valueMissing (switch : Switch)
  | valueIgnored (switch : Switch) (value : String)
  | sourcesMissing
  | leftOver (words : List String)
deriving DecidableEq

/-- The message for an error. -/
def UsageError.message : UsageError → String
  | ambiguous word candidates =>
    "ambiguous option: " ++ word ++ " could match " ++ ", ".intercalate candidates
  | valueMissing switch => "argument " ++ switch.name ++ ": expected one argument"
  | valueIgnored switch value =>
    "argument " ++ switch.name ++ ": ignored explicit argument " ++ Text.quoted value
  | sourcesMissing => "the following arguments are required: src"
  | leftOver words => "unrecognized arguments: " ++ " ".intercalate words

/-- What a word of the command line is. -/
inductive Word.Role where
  | operand
  /-- Two dashes alone. -/
  | divider
  /-- A switch, and the text that stands behind it in the same word. -/
  | switch (switch : Switch) (isLong : Bool) (attached : Option String)
  /-- A word with a dash in front that names no switch. -/
  | unknown

/-- The text in front of the first equals sign, and the text behind it. -/
def splitAtSign? (s : String) : Option (String × String) :=
  let front := s.toList.takeWhile (· ≠ '=')
  match s.toList.dropWhile (· ≠ '=') with
  | _ :: back => some (String.ofList front, String.ofList back)
  | [] => none

/-- Whether a text is a number with a minus sign; a line feed may follow. -/
def isNegativeNumber (s : String) : Bool :=
  match s.toList with
  | '-' :: digits =>
    let digits := if digits.getLast? = some '\n' then digits.dropLast else digits
    let whole := digits.takeWhile Text.isDecimal
    match digits.dropWhile Text.isDecimal with
    | [] => !whole.isEmpty
    | '.' :: fraction => !fraction.isEmpty && fraction.all Text.isDecimal
    | _ => false
  | _ => false

/-- The role of a word that is not behind two dashes. -/
def roleOf (word : String) : Except UsageError Word.Role :=
  match word.toList with
  | '-' :: '-' :: [] => .ok .divider
  | '-' :: second :: rest =>
    let isLong := second = '-'
    match Switch.ofSpelling? word with
    | some s => .ok (.switch s isLong none)
    | none =>
      let signed := splitAtSign? word
      match signed.bind fun (front, value) => (Switch.ofSpelling? front).map (·, value) with
      | some (s, value) => .ok (.switch s isLong (some value))
      | none =>
        let candidates := if isLong then
            let start := (signed.map (·.1)).getD word
            Switch.table.filter fun e => Text.startsWith e.1 start
          else Switch.table.filter fun e => e.1 = String.ofList ['-', second]
        match candidates with
        | [(_, s)] =>
          if isLong then .ok (.switch s true (signed.map (·.2)))
          else .ok (.switch s false (some (String.ofList rest)))
        | [] =>
          if isNegativeNumber word || word.toList.contains ' ' then .ok .operand
          else .ok .unknown
        | several => .error (.ambiguous word (several.map (·.1)))
  | _ => .ok .operand

/-- The roles of the words of a command line. -/
def rolesOf : List String → Except UsageError (List (String × Word.Role))
  | [] => .ok []
  | word :: rest => do
    match ← roleOf word with
    | .divider => return (word, .divider) :: rest.map (·, .operand)
    | role => return (word, role) :: (← rolesOf rest)

/-- The arguments of the command. -/
structure Arguments where
  sources : List String := []
  modulesRoot : Option Json := none
  targetRoot : Option Json := none
  license : Option Json := none
  config : Option Json := none
  onlyRawTypes : Bool := false
  isQuiet : Bool := false
  isVerbose : Bool := false
  /-- Whether only an explanation is wanted. -/
  wantsHelp : Bool := false

namespace Arguments

/-- Turns a switch on. -/
def turnOn (a : Arguments) : Switch → Arguments
  | .help => { a with wantsHelp := true }
  | .onlyRawTypes => { a with onlyRawTypes := true }
  | .quiet => { a with isQuiet := true }
  | .verbose => { a with isVerbose := true }
  | .modulesRoot | .targetRoot | .license | .config => a

/-- The value that a text stands for. Two dashes alone are taken out of what a switch
gets, so that nothing is left. -/
def valueOf (text : String) : Json := if text = "--" then .list [] else .text text

/-- Gives a switch its value. -/
def give (a : Arguments) (text : String) : Switch → Arguments
  | .modulesRoot => { a with modulesRoot := some (valueOf text) }
  | .targetRoot => { a with targetRoot := some (valueOf text) }
  | .license => { a with license := some (valueOf text) }
  | .config => { a with config := some (valueOf text) }
  | .help | .onlyRawTypes | .quiet | .verbose => a

/-- What has been read so far. -/
structure Progress where
  arguments : Arguments := {}
  /-- Whether the sources have been found. -/
  hasSources : Bool := false
  leftOver : List String := []

/-- A switch that still needs the next word as its value, if there is one. -/
abbrev Open := Option Switch

/-- Reads a switch with nothing behind it in its word. -/
def Progress.bare (p : Progress) (switch : Switch) : Progress × Open :=
  if switch.takesValue then (p, some switch)
  else ({ p with arguments := p.arguments.turnOn switch }, none)

/-- Reads the short switches that are run together in one word. The first is given,
with the text behind it. -/
def cluster (p : Progress) (switch : Switch) (text : List Char) :
    Except UsageError (Progress × Open) :=
  if switch.takesValue then
    .ok ({ p with arguments := p.arguments.give (String.ofList text) switch }, none)
  else
    match text with
    | [] => .error (.valueIgnored switch "")
    | c :: rest =>
      let p := { p with arguments := p.arguments.turnOn switch }
      match Switch.ofSpelling? (String.ofList ['-', c]), rest with
      | none, _ => .error (.valueIgnored switch (String.ofList text))
      | some next, [] => .ok (p.bare next)
      | some next, d :: rest => cluster p next (d :: rest)
termination_by text.length

/-- Reads a switch. -/
def readSwitch (p : Progress) (switch : Switch) (isLong : Bool) (attached : Option String) :
    Except UsageError (Progress × Open) :=
  match attached with
  | none => .ok (p.bare switch)
  | some text =>
    if switch.takesValue then .ok ({ p with arguments := p.arguments.give text switch }, none)
    else if isLong then .error (.valueIgnored switch text)
    else cluster p switch text.toList

/-- The sources at the front of some words: operands, with two dashes anywhere among
them. Only the first two dashes are taken out. -/
def sourcesOf (words : List (String × Word.Role)) : Option (List String) :=
  if words.any fun w => w.2 matches .operand then some ((words.map (·.1)).erase "--") else none

/-- Takes a run of words without switches: as the sources, if there are none yet. -/
def takeOperands (p : Progress) (words : List (String × Word.Role)) : Progress :=
  match p.hasSources, sourcesOf words with
  | false, some sources =>
    { p with hasSources := true, arguments := { p.arguments with sources } }
  | _, _ => { p with leftOver := p.leftOver ++ words.map (·.1) }

/-- Reads the words of a command line. `run` holds the operands since the last
switch. -/
def read (p : Progress) (run : List (String × Word.Role)) (opened : Open) :
    List (String × Word.Role) → Except UsageError Progress
  | [] =>
    match opened with
    | some switch => .error (.valueMissing switch)
    | none => .ok (takeOperands p run)
  | (word, role) :: rest =>
    match opened, role with
    | some switch, .operand =>
      let p := { p with arguments := p.arguments.give word switch }
      if p.arguments.wantsHelp then .ok p else read p [] none rest
    | some switch, _ => .error (.valueMissing switch)
    | none, .switch s isLong attached => do
      let (p, opened) ← readSwitch (takeOperands p run) s isLong attached
      if p.arguments.wantsHelp && opened.isNone then return p else read p [] opened rest
    | none, .unknown =>
      let p := takeOperands p run
      read { p with leftOver := p.leftOver ++ [word] } [] none rest
    | none, _ => read p (run ++ [(word, role)]) none rest

/-- The arguments that the words of a command line stand for. -/
def ofWords (words : List String) : Except UsageError Arguments := do
  let p ← read {} [] none (← rolesOf words)
  if p.arguments.wantsHelp then return p.arguments
  else if !p.hasSources then .error .sourcesMissing
  else if !p.leftOver.isEmpty then .error (.leftOver p.leftOver)
  else return p.arguments

end Arguments

end SolidityInterface
