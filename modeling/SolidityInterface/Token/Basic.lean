/-
  Tokens of a Solidity source text, and the places where they stand.

  A place counts the characters before it, and gives line and column from one.
  A token stream is a list of tokens together with the place where the source
  ends; the token that marks the end is not stored, so a stream has exactly one
  and it comes last.
-/

namespace SolidityInterface

/-- A place in a source text. -/
structure Place where
  /-- The number of characters before it. -/
  offset : Nat := 0
  /-- The line, counted from one. -/
  line : Nat := 1
  /-- The column, counted from one. -/
  column : Nat := 1
deriving DecidableEq

namespace Place

/-- The place behind a character that stands at `p`. -/
def next (p : Place) (c : Char) : Place :=
  if c = '\n' then ⟨p.offset + 1, p.line + 1, 1⟩ else ⟨p.offset + 1, p.line, p.column + 1⟩

/-- The place behind a text that starts at `p`. -/
def after (p : Place) : List Char → Place
  | [] => p
  | c :: rest => (p.next c).after rest

/-- The place after one more step where no character is left. -/
def beyond (p : Place) : Place := ⟨p.offset + 1, p.line, p.column + 1⟩

end Place

/-- The class of a token. -/
inductive Token.Kind where
  | kwContract | kwInterface | kwLibrary | kwAbstract | kwStruct | kwEnum
  | kwFunction | kwModifier | kwEvent | kwError | kwMapping
  | kwStorage | kwMemory | kwCalldata
  | kwPublic | kwPrivate | kwInternal | kwExternal
  | kwView | kwPure | kwPayable | kwVirtual | kwOverride
  | kwImmutable | kwConstant | kwTransient | kwIndexed | kwReturns
  | kwPragma | kwImport | kwIs | kwUsing | kwType
  | kwConstructor | kwReceive | kwFallback
  /-- The name of a built-in value type. -/
  | elementary
  | arrow | eq | star
  /-- A run of operator characters. -/
  | operator
  | lparen | rparen | lbrace | rbrace | lbracket | rbracket
  | semicolon | comma | dot
  | number | hexNumber | stringLiteral | identifier
  /-- The text of a pragma behind its name. -/
  | pragmaValue
  /-- The end of the source. -/
  | eof
deriving DecidableEq

namespace Token.Kind

/-- The name of a class in messages. -/
def label : Kind → String
  | kwContract => "CONTRACT" | kwInterface => "INTERFACE" | kwLibrary => "LIBRARY"
  | kwAbstract => "ABSTRACT" | kwStruct => "STRUCT" | kwEnum => "ENUM"
  | kwFunction => "FUNCTION" | kwModifier => "MODIFIER" | kwEvent => "EVENT"
  | kwError => "ERROR" | kwMapping => "MAPPING" | kwStorage => "STORAGE"
  | kwMemory => "MEMORY" | kwCalldata => "CALLDATA" | kwPublic => "PUBLIC"
  | kwPrivate => "PRIVATE" | kwInternal => "INTERNAL" | kwExternal => "EXTERNAL"
  | kwView => "VIEW" | kwPure => "PURE" | kwPayable => "PAYABLE"
  | kwVirtual => "VIRTUAL" | kwOverride => "OVERRIDE" | kwImmutable => "IMMUTABLE"
  | kwConstant => "CONSTANT" | kwTransient => "TRANSIENT" | kwIndexed => "INDEXED"
  | kwReturns => "RETURNS" | kwPragma => "PRAGMA" | kwImport => "IMPORT"
  | kwIs => "IS" | kwUsing => "USING" | kwType => "TYPE"
  | kwConstructor => "CONSTRUCTOR" | kwReceive => "RECEIVE" | kwFallback => "FALLBACK"
  | elementary => "ELEMENTARY_TYPE"
  | arrow => "ARROW" | eq => "EQ" | star => "STAR" | operator => "OPERATOR"
  | lparen => "LPAREN" | rparen => "RPAREN" | lbrace => "LBRACE" | rbrace => "RBRACE"
  | lbracket => "LBRACKET" | rbracket => "RBRACKET"
  | semicolon => "SEMICOLON" | comma => "COMMA" | dot => "DOT"
  | number => "NUMBER" | hexNumber => "HEX_NUMBER" | stringLiteral => "STRING_LITERAL"
  | identifier => "IDENTIFIER" | pragmaValue => "PRAGMA_VALUE" | eof => "EOF"

/-- The class that closes a group opened by this one, if it opens a group. -/
def closer? : Kind → Option Kind
  | lparen => some rparen
  | lbrace => some rbrace
  | lbracket => some rbracket
  | _ => none

/-- Whether a token of this class opens a group. -/
def isOpener (k : Kind) : Bool := k.closer?.isSome

/-- Whether a token of this class closes a group. -/
def isCloser : Kind → Bool
  | rparen | rbrace | rbracket => true
  | _ => false

/-- Whether a token of this class can be a name: an identifier, or a keyword
that is one only in its own construct. -/
def isName : Kind → Bool
  | identifier | kwError | kwType | kwReceive | kwFallback => true
  | _ => false

end Token.Kind

/-- A token: its class, its text and the place where it starts. -/
structure Token where
  /-- The class. -/
  kind : Token.Kind
  /-- The text, as it stands in the source. -/
  text : String
  /-- The place of its first character. -/
  place : Place
deriving DecidableEq

/-- The token that marks the end of a source. -/
def Token.eof (stop : Place) : Token := ⟨.eof, "", stop⟩

/-- The tokens of a source text and the place where the text ends. -/
structure TokenStream where
  /-- The tokens before the end. -/
  tokens : List Token
  /-- The place of the end. -/
  stop : Place
deriving DecidableEq

/-- All tokens of a stream, with the one that marks the end. -/
def TokenStream.toList (s : TokenStream) : List Token := s.tokens ++ [Token.eof s.stop]

end SolidityInterface
