import SolidityInterface.Declaration.Basic
import SolidityInterface.Proofs.Token.Inline

/-
  Declarations as they are printed, and the symbols they are printed with. Each
  declaration has a text, `render`, and a list of symbols, `symbols`; `Proofs/Declaration/Spelled`
  shows that the text is read as the symbols, and `Proofs/Declaration/Parsed` that the
  symbols are parsed as the declaration.
-/

namespace SolidityInterface

open Token (Kind)

/-- The symbol of a word. -/
def Symbol.word (w : String) : Symbol := (Word.kind w, w)

/-- Lists of symbols with a comma between them. -/
def commaSeparated : List (List Symbol) → List Symbol
  | [] => []
  | [ss] => ss
  | ss :: rest => ss ++ (.comma, ",") :: commaSeparated rest

namespace DottedName

/-- The symbols of a dotted name. -/
def symbols : DottedName → List Symbol
  | [] => []
  | n :: rest => Symbol.word n :: rest.flatMap fun m => [(.dot, "."), Symbol.word m]

end DottedName

namespace TypeName

/-- The text of a type. -/
def render : TypeName → String
  | elementary name => name
  | named path => path.render
  | array base length => base.render ++ "[" ++ length.getD "" ++ "]"
  | mapping key value => "mapping(" ++ key.render ++ " => " ++ value.render ++ ")"

/-- The symbols of a type. -/
def symbols : TypeName → List Symbol
  | elementary name =>
    if name = "address payable" then [Symbol.word "address", Symbol.word "payable"]
    else [Symbol.word name]
  | named path => path.symbols
  | array base length =>
    base.symbols ++ (.lbracket, "[") :: (inlineSymbols (length.getD "") ++ [(.rbracket, "]")])
  | mapping key value =>
    [Symbol.word "mapping", (.lparen, "(")] ++ key.symbols ++ (.arrow, "=>") :: value.symbols
      ++ [(.rparen, ")")]

/-- The texts of the lengths in a type. -/
def lengths : TypeName → List String
  | elementary _ | named _ => []
  | array base length => base.lengths ++ length.toList
  | mapping key value => key.lengths ++ value.lengths

end TypeName

namespace Variable

/-- The words behind the type of a parameter: its location and its name. -/
def words (v : Variable) : List String := (v.location.map (·.word)).toList ++ v.name.toList

/-- The text of a parameter, or of a member of a struct. -/
def render (v : Variable) : String := " ".intercalate (v.type.render :: v.words)

/-- The symbols of a parameter, or of a member of a struct. -/
def symbols (v : Variable) : List Symbol := v.type.symbols ++ v.words.map Symbol.word

end Variable

namespace StructDecl

/-- The lines of a struct. -/
def toLines (d : StructDecl) : List String :=
  ["struct " ++ d.name ++ " \x7b"] ++ d.members.map (fun v => "    " ++ v.render ++ ";") ++ ["\x7d"]

/-- The text of a struct. -/
def render (d : StructDecl) : String := "\n".intercalate d.toLines

/-- The symbols of a struct. -/
def symbols (d : StructDecl) : List Symbol :=
  [Symbol.word "struct", Symbol.word d.name, (.lbrace, "\x7b")]
    ++ d.members.flatMap (fun v => v.symbols ++ [(.semicolon, ";")]) ++ [(.rbrace, "\x7d")]

end StructDecl

namespace EnumDecl

/-- The text of an enum. -/
def render (d : EnumDecl) : String :=
  "enum " ++ d.name ++ " \x7b " ++ ", ".intercalate d.members ++ " \x7d"

/-- The symbols of an enum. -/
def symbols (d : EnumDecl) : List Symbol :=
  [Symbol.word "enum", Symbol.word d.name, (.lbrace, "\x7b")]
    ++ commaSeparated (d.members.map fun n => [Symbol.word n]) ++ [(.rbrace, "\x7d")]

end EnumDecl

namespace FunctionDecl

/-- The text of the header of an external function. -/
def render (f : FunctionDecl) : String :=
  let mutability := match f.mutability with
    | some m => " " ++ m.word
    | none => ""
  let results := if f.returns.isEmpty then ""
    else " returns (" ++ ", ".intercalate (f.returns.map (·.render)) ++ ")"
  "function " ++ f.name.getD "" ++ "(" ++ ", ".intercalate (f.parameters.map (·.render)) ++ ") external"
    ++ mutability ++ results ++ ";"

/-- The symbols of the promise about the state, if there is one. -/
def mutabilitySymbols (m : Option StateMutability) : List Symbol :=
  (m.map fun m => Symbol.word m.word).toList

/-- The symbols of the results, if there are any. -/
def resultSymbols (vs : List Variable) : List Symbol :=
  if vs.isEmpty then []
  else [Symbol.word "returns", (.lparen, "(")] ++ commaSeparated (vs.map (·.symbols))
    ++ [(.rparen, ")")]

/-- The symbols of the header of an external function. -/
def symbols (f : FunctionDecl) : List Symbol :=
  [Symbol.word "function", Symbol.word (f.name.getD ""), (.lparen, "(")]
    ++ commaSeparated (f.parameters.map (·.symbols)) ++ [(.rparen, ")"), Symbol.word "external"]
    ++ mutabilitySymbols f.mutability ++ resultSymbols f.returns ++ [(.semicolon, ";")]

end FunctionDecl

namespace Member

/-- The text of a member of an interface. State variables are not printed. -/
def render : Member → String
  | function f => f.render
  | state _ => ""
  | struct d => d.render
  | enum d => d.render

/-- The symbols of a member of an interface. State variables are not printed. -/
def symbols : Member → List Symbol
  | function f => f.symbols
  | state _ => []
  | struct d => d.symbols
  | enum d => d.symbols

/-- The texts of the lengths of arrays in a member. -/
def lengths : Member → List String
  | function f => (f.parameters ++ f.returns).flatMap (·.type.lengths)
  | state vs => vs.flatMap (·.type.lengths)
  | struct d => d.members.flatMap (·.type.lengths)
  | enum _ => []

end Member

/-- The symbols of the bases of an interface. -/
def baseSymbols (names : List String) : List Symbol :=
  if names.isEmpty then [] else Symbol.word "is" :: commaSeparated (names.map fun n => [Symbol.word n])

/-- The symbols of an interface with some bases and members. -/
def interfaceSymbols (name : String) (bases : List String) (members : List Member) : List Symbol :=
  [Symbol.word "interface", Symbol.word name] ++ baseSymbols bases ++ [(.lbrace, "\x7b")]
    ++ members.flatMap (·.symbols) ++ [(.rbrace, "\x7d")]

/-- The symbols of a pragma. -/
def PragmaDirective.symbols (p : PragmaDirective) : List Symbol :=
  [(.kwPragma, "pragma"), (.identifier, p.name), (.pragmaValue, p.value), (.semicolon, ";")]

/-- The symbols of the import of a file. -/
def importSymbols (path : String) : List Symbol :=
  [Symbol.word "import", (.stringLiteral, "\x22" ++ path ++ "\x22"), (.semicolon, ";")]

/-! ## What can be printed -/

/-- Whether a type can be printed and read again: its names are names, its lengths are
read as they are, and no part of it is a mapping or a function. -/
def TypeName.Printable : TypeName → Prop
  | elementary name =>
    name = "address payable" ∨ (IsWord name.toList ∧ Word.kind name = .elementary)
  | named path => path ≠ [] ∧ ∀ n ∈ path, IsName n
  | array base length => base.Printable ∧ length ≠ some "" ∧ isInline (length.getD "") = true
  | mapping _ _ => False

/-- Whether a variable can be printed and read again: it has no more than a type, a
location and a name. -/
structure Variable.Printable (v : Variable) : Prop where
  type : v.type.Printable
  name : ∀ n ∈ v.name, IsName n
  location : ∀ w, v.location ≠ some (.other w)
  plain : v = { type := v.type, name := v.name, location := v.location }

/-- Whether a function can be printed as an external one and read again. -/
structure FunctionDecl.Printable (f : FunctionDecl) : Prop where
  name : ∃ n, f.name = some n ∧ IsName n
  parameters : ∀ v ∈ f.parameters, v.Printable
  returns : ∀ v ∈ f.returns, v.Printable
  plain : f = { name := f.name, parameters := f.parameters, returns := f.returns,
                visibility := .external, mutability := f.mutability }

/-- Whether a struct can be printed and read again. -/
structure StructDecl.Printable (d : StructDecl) : Prop where
  name : IsName d.name
  members : ∀ v ∈ d.members, v.Printable ∧ v.location = none ∧ v.name.isSome = true

/-- Whether an enum can be printed and read again. -/
structure EnumDecl.Printable (d : EnumDecl) : Prop where
  name : IsName d.name
  members : ∀ n ∈ d.members, IsName n

/-- Whether a member of a contract can be printed and read again. -/
def Member.Printable : Member → Prop
  | function f => f.Printable
  | state _ => False
  | struct d => d.Printable
  | enum d => d.Printable

end SolidityInterface
