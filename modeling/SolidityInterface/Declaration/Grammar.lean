import SolidityInterface.Declaration.Basic
import SolidityInterface.Declaration.Reader

/-
  The grammar of declarations, as parsers. Bodies, initial values, modifiers,
  events and errors are skipped. A member of a contract that is no declaration is
  read as a state variable, and passed over if it is none.
-/

namespace SolidityInterface.Parser

open Token (Kind)

/-! ## Names -/

/-- One more segment of a dotted name. -/
def segmentRound (path : DottedName) : Parser (Option DottedName) := do
  if (← kind) = .dot then
    discard advance
    return some (path ++ [← name])
  else return none

/-- A dotted name. -/
def dottedName : Parser DottedName := do
  let first ← name
  iterate segmentRound [first]

/-! ## Types -/

/-- The visibility that a keyword gives. -/
def visibility? : Kind → Option Visibility
  | .kwPublic => some .pub
  | .kwPrivate => some .priv
  | .kwInternal => some .internal
  | .kwExternal => some .external
  | _ => none

/-- The promise about the state that a keyword gives. Functions once said
`constant` for `view`. -/
def stateMutability? : Kind → Option StateMutability
  | .kwView | .kwConstant => some .view
  | .kwPure => some .pure
  | .kwPayable => some .payable
  | _ => none

/-- The location that a keyword gives. -/
def location? : Kind → Option DataLocation
  | .kwStorage => some .storage
  | .kwMemory => some .memory
  | .kwCalldata => some .calldata
  | _ => none

/-- The mode of storage that a keyword gives. -/
def mode? : Kind → Option StorageMode
  | .kwConstant => some .constant
  | .kwImmutable => some .immutable
  | .kwTransient => some .transient
  | _ => none

/-- One attribute of a function type. -/
def typeAttributeRound (_ : Unit) : Parser (Option Unit) := do
  let k ← kind
  if (visibility? k).isSome || (stateMutability? k).isSome then
    discard advance
    return some ()
  else return none

/-- A function type. Nothing of it is kept but that it is one. -/
def functionType : Parser TypeName := do
  discard (expect .kwFunction)
  skipGroup
  iterate typeAttributeRound ()
  if (← kind) = .kwReturns then
    discard advance
    skipGroup
  return .elementary "function"

/-- Takes the current token if it can be a name. -/
def skipName : Parser Unit := do
  if (← kind).isName then discard advance

/-- A mapping type, whose key and value are read by `inner`. The names that may
stand behind them are dropped. -/
def mappingType (inner : Parser TypeName) : Parser TypeName := do
  discard (expect .kwMapping)
  discard (expect .lparen)
  let key ← inner
  skipName
  discard (expect .arrow)
  let value ← inner
  skipName
  discard (expect .rparen)
  return .mapping key value

/-- The text of the tokens before the next closing bracket. -/
def lengthText : Parser String := fun r =>
  let tokens := r.ahead.takeWhile (·.kind ≠ .rbracket)
  .ok (String.join (tokens.map (·.text))) (r.drop tokens.length)

/-- One more pair of brackets behind a type. -/
def bracketRound (type : TypeName) : Parser (Option TypeName) := do
  if (← kind) = .lbracket then
    discard advance
    let length ← lengthText
    discard (expect .rbracket)
    return some (.array type (if length.isEmpty then none else some length))
  else return none

/-- A type without the brackets behind it. -/
def baseType (inner : Parser TypeName) : Parser TypeName := do
  let token ← current
  match token.kind with
  | .kwMapping => mappingType inner
  | .kwFunction => functionType
  | .elementary =>
    discard advance
    if token.text = "address" && (← kind) = .kwPayable then
      discard advance
      return .elementary "address payable"
    else return .elementary token.text
  | k =>
    if k.isName then return .named (← dottedName)
    else throw (.typeMissing (if token.text.isEmpty then k.label else token.text) token.place)

/-- A type in which mappings are nested less than `n` deep. -/
def typeNameWithin : Nat → Parser TypeName
  | 0 => throw .stalled
  | n + 1 => do
    let base ← baseType (typeNameWithin n)
    iterate bracketRound base

/-- A type. It nests no deeper than there are tokens. -/
def typeName : Parser TypeName := fun r => typeNameWithin (r.left + 1) r

/-! ## Variables -/

/-- One word between the type and the name of a parameter. -/
def parameterWordRound (v : Variable) : Parser (Option Variable) := do
  let k ← kind
  match location? k with
  | some l =>
    discard advance
    return some { v with location := some l }
  | none =>
    if k = .kwIndexed then
      discard advance
      return some { v with isIndexed := true }
    else return none

/-- A parameter. -/
def parameter : Parser Variable := do
  let type ← typeName
  let v ← iterate parameterWordRound { type }
  if (← kind).isName then
    let token ← advance
    return { v with name := some token.text }
  else return v

/-- One more parameter of a list. -/
def parameterRound (vs : List Variable) : Parser (Option (List Variable)) := do
  match ← kind with
  | .rparen | .eof => return none
  | _ =>
    let v ← parameter
    skipComma
    return some (vs ++ [v])

/-- A list of parameters in parentheses. -/
def parameterList : Parser (List Variable) := do
  discard (expect .lparen)
  let vs ← iterate parameterRound []
  discard (expect .rparen)
  return vs

/-- One word between the type and the name of a state variable. -/
def variableWordRound (v : Variable) : Parser (Option Variable) := do
  let k ← kind
  if k = .kwOverride then
    discard advance
    skipArguments
    return some v
  else match mode? k with
    | some m =>
      discard advance
      return some { v with mode := some m }
    | none =>
      match k, visibility? k with
      | .kwExternal, _ => return none
      | _, some visibility =>
        discard advance
        return some { v with visibility }
      | _, none => return none

/-- A state variable. Its initial value is skipped. -/
def stateVariable : Parser Variable := do
  let start ← current
  let type ← typeName
  let v ← iterate variableWordRound { type }
  let n ← name s!"state variable declared at line {start.place.line}"
  if (← kind) = .eq then skipStatement else discard (expect .semicolon)
  return { v with name := some n }

/-! ## Structs, enums and functions -/

/-- One more member of a struct. -/
def structMemberRound (vs : List Variable) : Parser (Option (List Variable)) := do
  match ← kind with
  | .rbrace | .eof => return none
  | _ =>
    let type ← typeName
    let n ← name
    discard (expect .semicolon)
    return some (vs ++ [{ type, name := some n }])

/-- A struct. -/
def struct : Parser StructDecl := do
  discard (expect .kwStruct)
  let n ← name
  discard (expect .lbrace)
  let members ← iterate structMemberRound []
  discard (expect .rbrace)
  return ⟨n, members⟩

/-- One more value of an enum. -/
def enumMemberRound (names : List String) : Parser (Option (List String)) := do
  match ← kind with
  | .rbrace | .eof => return none
  | _ =>
    let n ← name
    skipComma
    return some (names ++ [n])

/-- An enum. -/
def enum : Parser EnumDecl := do
  discard (expect .kwEnum)
  let n ← name
  discard (expect .lbrace)
  let members ← iterate enumMemberRound []
  discard (expect .rbrace)
  return ⟨n, members⟩

/-- One more attribute of a function. The last visibility, promise and list of
results win. -/
def functionAttributeRound (f : FunctionDecl) : Parser (Option FunctionDecl) := do
  let k ← kind
  match visibility? k, stateMutability? k with
  | some visibility, _ =>
    discard advance
    return some { f with visibility }
  | none, some m =>
    discard advance
    return some { f with mutability := some m }
  | none, none =>
    if k = .kwVirtual then
      discard advance
      return some { f with isVirtual := true }
    else if k = .kwOverride then
      discard advance
      skipArguments
      return some { f with isOverride := true }
    else if k = .kwReturns then
      discard advance
      return some { f with returns := ← parameterList }
    else if k.isName then
      let m ← dottedName
      skipArguments
      return some { f with modifiers := f.modifiers ++ [m] }
    else return none

/-- What a message calls a function. -/
def functionTitle (f : FunctionDecl) : String :=
  match f.name with
  | some n => if n.isEmpty then f.kind.word else n
  | none => f.kind.word

/-- Parameters, attributes and body of a function. The body is skipped. -/
def functionTail (f : FunctionDecl) : Parser FunctionDecl := do
  let parameters ← parameterList
  let f ← iterate functionAttributeRound { f with parameters }
  if (← kind) = .lbrace then skipGroup
  else discard (expect .semicolon s!"after function {functionTitle f}")
  return f

/-- A function. One without a name is the fallback of older programs. -/
def function : Parser FunctionDecl := do
  discard (expect .kwFunction)
  if (← kind) = .lparen then functionTail { name := none, kind := .special "fallback" }
  else
    let n ← name
    functionTail { name := some n, kind := if n.isEmpty then .special "fallback" else .ordinary }

/-- A function that a keyword introduces. -/
def specialFunction : Parser FunctionDecl := do
  let token ← advance
  functionTail { name := none, kind := .special token.text }

/-! ## Contracts -/

/-- One more base of a contract, with the arguments of its constructor. The flag
says whether a comma announced it. -/
def baseRound (state : List DottedName × Bool) : Parser (Option (List DottedName × Bool)) := do
  let (bases, more) := state
  if more then
    let base ← dottedName
    skipArguments
    if (← kind) = .comma then
      discard advance
      return some (bases ++ [base], true)
    else return some (bases ++ [base], false)
  else return none

/-- The bases of a contract. -/
def baseList : Parser (List DottedName) := do
  if (← kind) = .kwIs then
    discard advance
    let (bases, _) ← iterate baseRound ([], true)
    return bases
  else return []

/-- One member of a contract, or none where something else was skipped. -/
def member : Parser (Option Member) := do
  let k ← kind
  match k with
  | .kwFunction => return some (.function (← function))
  | .kwStruct => return some (.struct (← struct))
  | .kwEnum => return some (.enum (← enum))
  | .kwModifier =>
    discard advance
    skipBody
    return none
  | .kwEvent | .kwError | .kwUsing | .kwType =>
    skipStatement
    return none
  | _ =>
    let r ← get
    if (k = .kwConstructor || k = .kwReceive || k = .kwFallback) && (r.peek 1).kind = .lparen then
      return some (.function (← specialFunction))
    else
      let v? ← recovering stateVariable
      return v?.map fun v => .state [v]

/-- One more member of a contract. -/
def memberRound (members : List Member) : Parser (Option (List Member)) := do
  match ← kind with
  | .rbrace | .eof => return none
  | _ =>
    let m? ← member
    return some (members ++ m?.toList)

/-- The keyword that says what a contract is. -/
def contractKind : Parser ContractKind := do
  match ← kind with
  | .kwInterface =>
    discard advance
    return .interface
  | .kwLibrary =>
    discard advance
    return .library
  | _ =>
    discard (expect .kwContract)
    return .contract

/-- A contract, an interface or a library. -/
def contract : Parser Contract := do
  let isAbstract := (← kind) = .kwAbstract
  if isAbstract then discard advance
  let k ← contractKind
  let n ← name
  let bases ← baseList
  discard (expect .lbrace)
  let members ← iterate memberRound []
  discard (expect .rbrace)
  return { name := n, kind := k, isAbstract, bases, members }

/-! ## Files -/

/-- A pragma. -/
def pragma : Parser PragmaDirective := do
  discard (expect .kwPragma)
  let n ← expect .identifier
  let value ← expect .pragmaValue
  discard (expect .semicolon)
  return ⟨n.text, value.text⟩

/-- The name behind the word `as`, if it stands here. -/
def alias? : Parser (Option String) := do
  if (← current).text = "as" then
    discard advance
    return some (← name)
  else return none

/-- One more symbol of an import. -/
def symbolRound (symbols : List (String × Option String)) :
    Parser (Option (List (String × Option String))) := do
  match ← kind with
  | .rbrace | .eof => return none
  | _ =>
    let n ← name
    let a ← alias?
    skipComma
    return some (symbols ++ [(n, a)])

/-- The text of a string literal without its first and last character. -/
def unquote (s : String) : String := String.ofList (s.toList.drop 1).dropLast

/-- The word `from` and the file behind it. -/
def importedFile : Parser String := do
  let token ← current
  if token.text ≠ "from" then throw (.fromMissing token.place)
  discard advance
  return (← expect .stringLiteral).text

/-- An import, in one of its forms: a file, a file and its alias, everything
under an alias, or a list of symbols. -/
def importDirective : Parser ImportDirective := do
  discard (expect .kwImport)
  match ← kind with
  | .stringLiteral =>
    let file ← advance
    let unitAlias ← alias?
    discard (expect .semicolon)
    return { path := unquote file.text, unitAlias }
  | .star =>
    discard advance
    let unitAlias ← alias?
    let file ← importedFile
    discard (expect .semicolon)
    return { path := unquote file, unitAlias }
  | _ =>
    discard (expect .lbrace)
    let symbols ← iterate symbolRound []
    discard (expect .rbrace)
    let file ← importedFile
    discard (expect .semicolon)
    return { path := unquote file, symbols }

/-- One more declaration of a file. Functions outside contracts belong to no
interface, and stray closing brackets are passed over. -/
def unitRound (u : SourceUnit) : Parser (Option SourceUnit) := do
  let k ← kind
  match k with
  | .eof => return none
  | .kwPragma => return some { u with pragmas := u.pragmas ++ [← pragma] }
  | .kwImport => return some { u with imports := u.imports ++ [← importDirective] }
  | .kwContract | .kwInterface | .kwLibrary | .kwAbstract =>
    return some { u with contracts := u.contracts ++ [← contract] }
  | .kwStruct => return some { u with structs := u.structs ++ [← struct] }
  | .kwEnum => return some { u with enums := u.enums ++ [← enum] }
  | .kwFunction =>
    discard function
    return some u
  | _ =>
    if k.isCloser then discard advance else skipStatement
    return some u

/-- The declarations ahead. -/
def sourceUnit : Parser SourceUnit := iterate unitRound {}

end SolidityInterface.Parser

namespace SolidityInterface

/-- Why a source text has no declarations. -/
inductive SourceError where
  /-- The scanner cannot come to the end of the text. -/
  | endless
  /-- The tokens are refused. -/
  | refused (error : ParseError)
deriving DecidableEq

/-- The declarations of a token stream. -/
def SourceUnit.ofTokens (s : TokenStream) : Except ParseError SourceUnit :=
  match Parser.sourceUnit (Reader.ofStream s) with
  | .ok u _ => .ok u
  | .error e _ => .error e

/-- The declarations of a source text. -/
def SourceUnit.ofSource (source : String) : Except SourceError SourceUnit :=
  match TokenStream.ofSource? source with
  | none => .error .endless
  | some s => (SourceUnit.ofTokens s).mapError .refused

end SolidityInterface
