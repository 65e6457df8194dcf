import SolidityInterface.Token.Scan

/-
  Reading a token stream. A reader holds the tokens ahead; when none is left its
  current token is the one that marks the end. A parser is a step on readers that
  ends in a value or an error, and in both cases leaves the reader where it
  stopped. Groups and statements are skipped by counting brackets.

  A loop runs for as many rounds as there are tokens ahead, and one more. Every
  round of every loop of the grammar takes a token, so none ends for want of
  rounds.
-/

namespace SolidityInterface

open Token (Kind)

/-- A position in a token stream. -/
structure Reader where
  /-- The tokens ahead, without the one that marks the end. -/
  ahead : List Token
  /-- The number of tokens ahead. -/
  left : Nat
  left_eq : left = ahead.length
  /-- The place where the source ends. -/
  stop : Place
  /-- The number of tokens read. -/
  index : Nat := 0

namespace Reader

/-- The start of a stream. -/
def ofStream (s : TokenStream) : Reader := ⟨s.tokens, s.tokens.length, rfl, s.stop, 0⟩

/-- The token `n` places ahead. -/
def peek (r : Reader) (n : Nat) : Token := (r.ahead[n]?).getD (Token.eof r.stop)

/-- The current token. -/
def current (r : Reader) : Token := r.ahead.headD (Token.eof r.stop)

/-- The reader `n` tokens on. -/
def drop (r : Reader) (n : Nat) : Reader :=
  ⟨r.ahead.drop n, r.left - n, by rw [r.left_eq, List.length_drop], r.stop, r.index + n⟩

end Reader

/-- Why a source text is refused. -/
inductive ParseError where
  /-- Another token stands where one of a given class must. -/
  | unexpected (wanted got : Kind) (place : Place) (note : String)
  /-- An import names symbols and no file. -/
  | fromMissing (place : Place)
  /-- A group has no end. -/
  | unterminated (opener : String) (place : Place)
  /-- No type stands where one must. -/
  | typeMissing (found : String) (place : Place)
  /-- No group stands where one is to be skipped. -/
  | groupMissing (got : Kind)
  /-- A loop ran for more rounds than there are tokens. -/
  | stalled
deriving DecidableEq

namespace ParseError

/-- Whether the text breaks the grammar, so that a faulty member of a contract
can be passed over. -/
def isSyntax : ParseError → Bool
  | groupMissing _ | stalled => false
  | _ => true

/-- The message for an error. -/
def message : ParseError → String
  | unexpected wanted got place note =>
    s!"Expected {wanted.label} but got {got.label} at line {place.line}, column {place.column}: {note}"
  | fromMissing place =>
    s!"Expected 'from' in import at line {place.line}, column {place.column}"
  | unterminated opener place =>
    s!"Unterminated '{opener}' opened at line {place.line}, column {place.column}"
  | typeMissing found place =>
    s!"Expected a type name but got '{found}' at line {place.line}, column {place.column}"
  | groupMissing got => got.label
  | stalled => "No progress"

end ParseError

/-- A step on readers that ends in a value or an error. -/
abbrev Parser := EStateM ParseError Reader

namespace Parser

variable {α σ : Type}

/-- The current token. -/
def current : Parser Token := fun r => .ok r.current r

/-- The class of the current token. -/
def kind : Parser Kind := fun r => .ok r.current.kind r

/-- Takes the current token. -/
def advance : Parser Token := fun r => .ok r.current (r.drop 1)

/-- Takes the current token if it is of the given class. -/
def expect (wanted : Kind) (note : String := "") : Parser Token := fun r =>
  if r.current.kind = wanted then .ok r.current (r.drop 1)
  else .error (.unexpected wanted r.current.kind r.current.place note) r

/-- Takes the current token if it can be a name. -/
def name (note : String := "") : Parser String := fun r =>
  if r.current.kind.isName then .ok r.current.text (r.drop 1)
  else .error (.unexpected .identifier r.current.kind r.current.place note) r

/-- Runs `round` on a state until it gives none, for at most `n` rounds. -/
def iterateWithin (round : σ → Parser (Option σ)) : Nat → σ → Parser σ
  | 0, _ => throw .stalled
  | n + 1, s => do
    match ← round s with
    | none => pure s
    | some t => iterateWithin round n t

/-- Runs `round` on a state until it gives none. -/
def iterate (round : σ → Parser (Option σ)) (s : σ) : Parser σ := fun r =>
  iterateWithin round (r.left + 1) s r

/-! ## Skipping -/

/-- The number of tokens up to and including the one that closes a group in
which `depth` inner groups of the same kind are open, if it is there. -/
def groupLength (opener closer : Kind) : Nat → List Token → Option Nat
  | _, [] => none
  | depth, t :: rest =>
    if t.kind = opener then (groupLength opener closer (depth + 1) rest).map (· + 1)
    else if t.kind = closer then
      match depth with
      | 0 => some 1
      | depth + 1 => (groupLength opener closer depth rest).map (· + 1)
    else (groupLength opener closer depth rest).map (· + 1)

/-- Skips the group that starts at the current token. Only brackets of its own
kind are counted. -/
def skipGroup : Parser Unit := fun r =>
  match r.current.kind.closer? with
  | none => .error (.groupMissing r.current.kind) r
  | some closer =>
    match groupLength r.current.kind closer 0 (r.ahead.drop 1) with
    | some n => .ok () (r.drop (n + 1))
    | none => .error (.unterminated r.current.text r.current.place) (r.drop r.left)

/-- The number of tokens up to and including the first semicolon outside all
brackets, or before the first bracket that closes what was not opened, or all.
Brackets of all kinds are counted together. -/
def statementLength : Nat → List Token → Nat
  | _, [] => 0
  | depth, t :: rest =>
    if t.kind.isOpener then statementLength (depth + 1) rest + 1
    else if t.kind.isCloser then
      match depth with
      | 0 => 0
      | depth + 1 => statementLength depth rest + 1
    else if t.kind = .semicolon ∧ depth = 0 then 1
    else statementLength depth rest + 1

/-- Skips to behind the next semicolon of this level, and stops before a bracket
that belongs to what stands around. -/
def skipStatement : Parser Unit := fun r => .ok () (r.drop (statementLength 0 r.ahead))

/-- One round of `skipBody`: skips a token or a group before the body. -/
def skipBodyRound (_ : Unit) : Parser (Option Unit) := do
  match ← kind with
  | .lbrace | .semicolon | .eof => return none
  | k =>
    if k.isOpener then skipGroup else discard advance
    return some ()

/-- Skips to behind a body in braces or a semicolon, whichever comes first. -/
def skipBody : Parser Unit := do
  iterate skipBodyRound ()
  match ← kind with
  | .lbrace => skipGroup
  | .semicolon => discard advance
  | _ => pure ()

/-- Skips the group at the current token if it is one in parentheses. -/
def skipArguments : Parser Unit := do
  if (← kind) = .lparen then skipGroup

/-- Takes the current token if it is a comma. -/
def skipComma : Parser Unit := do
  if (← kind) = .comma then discard advance

/-- Runs `item`. If the text breaks the grammar there, goes back to where it
began, skips the statement, or one token if the statement is empty, and gives
none. -/
def recovering (item : Parser α) : Parser (Option α) := fun r =>
  match item r with
  | .ok a s => .ok (some a) s
  | .error e s =>
    if e.isSyntax then .ok none (r.drop (max 1 (statementLength 0 r.ahead)))
    else .error e s

end Parser

end SolidityInterface
