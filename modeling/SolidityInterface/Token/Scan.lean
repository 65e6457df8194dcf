import SolidityInterface.Token.Word
import SolidityInterface.Text.Blank

/-
  Scanning: from the characters of a source to its tokens.

  What a token or a comment covers is given by functions from the characters
  ahead to the text at their front, so every text here is an initial part of
  what it is read from. A cursor then moves over that text. One round of the
  scanner skips blanks and reads one token, one comment or one character that
  starts no token; a round that stops at a digit other than 0 to 9 reads an empty
  number and does not move, and a source that holds such a place has no tokens.
-/

namespace SolidityInterface

open Token (Kind)

/-! ## The text at the front -/

namespace Lexeme

/-- A comment to the end of the line, without the line feed. -/
def lineComment (s : List Char) : List Char := s.takeWhile (· ≠ '\n')

/-- The text up to and including the first `*/`, or all of it. -/
def untilCommentEnd : List Char → List Char
  | [] => []
  | '*' :: '/' :: _ => ['*', '/']
  | c :: rest => c :: untilCommentEnd rest

/-- The comment at the front, or nothing if none starts there. -/
def comment (s : List Char) : List Char :=
  match s with
  | '/' :: '/' :: _ => lineComment s
  | '/' :: '*' :: rest => '/' :: '*' :: untilCommentEnd rest
  | _ => []

/-- The text of a string literal behind its opening quote, closing quote
included, and whether a backslash stands last in the source, so that the
character it escapes is missing. -/
def stringTail (quote : Char) : List Char → List Char × Bool
  | [] => ([], false)
  | c :: rest =>
    if c = quote then ([c], false)
    else if c = '\\' then
      match rest with
      | [] => ([c], true)
      | d :: rest => let (text, short) := stringTail quote rest; (c :: d :: text, short)
    else let (text, short) := stringTail quote rest; (c :: text, short)

/-- Whether a character is an ASCII digit or an underscore. -/
def isNumberPart (c : Char) : Bool := c.isDigit || c = '_'

/-- Whether a character is a hexadecimal digit or an underscore. -/
def isHexPart (c : Char) : Bool :=
  c.isDigit || ('a' ≤ c && c ≤ 'f') || ('A' ≤ c && c ≤ 'F') || c = '_'

/-- The fraction at the front: a point that a digit follows, and more digits. -/
def fraction : List Char → List Char
  | '.' :: d :: rest => if Text.isDigit d then '.' :: (d :: rest).takeWhile isNumberPart else []
  | _ => []

/-- The sign at the front, if any. -/
def sign : List Char → List Char
  | '+' :: _ => ['+']
  | '-' :: _ => ['-']
  | _ => []

/-- The exponent at the front: its mark, a sign and digits. -/
def exponent : List Char → List Char
  | e :: rest =>
    if e = 'e' || e = 'E' then
      e :: sign rest ++ (rest.drop (sign rest).length).takeWhile Text.isDigit
    else []
  | [] => []

/-- The number at the front and its class. -/
def number (s : List Char) : List Char × Kind :=
  match s with
  | '0' :: 'x' :: rest => ('0' :: 'x' :: rest.takeWhile isHexPart, .hexNumber)
  | '0' :: 'X' :: rest => ('0' :: 'X' :: rest.takeWhile isHexPart, .hexNumber)
  | _ =>
    let whole := s.takeWhile isNumberPart
    let s := s.drop whole.length
    let part := fraction s
    let s := s.drop part.length
    (whole ++ part ++ exponent s, .number)

/-- The word at the front. -/
def word (s : List Char) : List Char := s.takeWhile Word.isPart

/-- Whether a character starts an operator. -/
def isOperator (c : Char) : Bool := "+-/%&|^~<>!?:".toList.contains c

/-- The run of operator characters at the front. -/
def operator (s : List Char) : List Char := s.takeWhile fun c => isOperator c || c = '='

/-- The class of a character that is a token of its own. -/
def punctuation? : Char → Option Kind
  | '=' => some .eq
  | '*' => some .star
  | '(' => some .lparen
  | ')' => some .rparen
  | '\x7b' => some .lbrace
  | '\x7d' => some .rbrace
  | '[' => some .lbracket
  | ']' => some .rbracket
  | ';' => some .semicolon
  | ',' => some .comma
  | '.' => some .dot
  | _ => none

end Lexeme

/-! ## Moving over the source -/

/-- What is left of a source text, and the place where it starts. -/
structure Cursor where
  /-- The characters ahead. -/
  rest : List Char
  /-- The place of the first of them. -/
  place : Place := {}

namespace Cursor

/-- The character `n` places ahead. -/
def peek? (c : Cursor) (n : Nat) : Option Char := c.rest[n]?

/-- One step ahead. At the end of the source the place still moves on. -/
def advance (c : Cursor) : Cursor :=
  match c.rest with
  | [] => ⟨[], c.place.beyond⟩
  | ch :: rest => ⟨rest, c.place.next ch⟩

/-- The cursor behind a text that stands at its front. -/
def past (c : Cursor) (text : List Char) : Cursor :=
  ⟨c.rest.drop text.length, c.place.after text⟩

/-- The cursor behind the spaces, tabs, carriage returns and line feeds ahead. -/
def skipSpace (c : Cursor) : Cursor := c.past (c.rest.takeWhile Char.isWhitespace)

/-- The cursor behind the comment ahead, if one starts here. -/
def skipComment (c : Cursor) : Cursor := c.past (Lexeme.comment c.rest)

/-- The string literal ahead, whatever its quote, and the cursor behind it. A
literal that ends in an unpaired backslash leaves the cursor one place beyond
the end, and at the end of the source two steps are made. -/
def string (c : Cursor) : List Char × Cursor :=
  match c.rest with
  | [] => ([], c.advance.advance)
  | quote :: rest =>
    let (tail, short) := Lexeme.stringTail quote rest
    let text := quote :: tail
    (text, if short then (c.past text).advance else c.past text)

/-- The token that covers `text` at the cursor. -/
def token (c : Cursor) (kind : Kind) (text : List Char) : Token :=
  ⟨kind, String.ofList text, c.place⟩

/-- The two tokens behind the word `pragma`: a name, and the trimmed text up to
the next semicolon or the end. -/
def pragma (c : Cursor) : List Token × Cursor :=
  let c := c.skipSpace
  let name := Lexeme.word c.rest
  let d := (c.past name).skipSpace
  let value := d.rest.takeWhile (· ≠ ';')
  ([c.token .identifier name, d.token .pragmaValue (Text.trim value)], d.past value)

/-- The tokens of one round, from a character that is not blank. -/
def read (c : Cursor) : List Token × Cursor :=
  match c.rest with
  | [] => ([], c)
  | ch :: rest =>
    if ch = '/' && (rest.head? = some '/' || rest.head? = some '*') then ([], c.skipComment)
    else if ch = '\x22' || ch = '\x27' then
      let (text, d) := c.string
      ([c.token .stringLiteral text], d)
    else if Text.isDigit ch then
      let (text, kind) := Lexeme.number c.rest
      ([c.token kind text], c.past text)
    else if Word.isStart ch then
      let text := Lexeme.word c.rest
      let kind := Word.kind (String.ofList text)
      let d := c.past text
      if kind = .kwPragma then
        let (tokens, e) := d.pragma
        (c.token kind text :: tokens, e)
      else ([c.token kind text], d)
    else if ch = '=' && rest.head? = some '>' then ([c.token .arrow ['=', '>']], c.past ['=', '>'])
    else if Lexeme.isOperator ch || (ch = '=' && rest.head? = some '=') then
      let text := Lexeme.operator c.rest
      ([c.token .operator text], c.past text)
    else match Lexeme.punctuation? ch with
      | some kind => ([c.token kind [ch]], c.past [ch])
      | none => ([], c.past [ch])

/-- One round of the scanner. -/
def round (c : Cursor) : List Token × Cursor := c.skipSpace.read

/-- The tokens ahead, if they end within `n` rounds, and the place of the end. -/
def scanWithin : Nat → Cursor → Option TokenStream
  | 0, c => if c.rest.isEmpty then some ⟨[], c.place⟩ else none
  | n + 1, c =>
    if c.rest.isEmpty then some ⟨[], c.place⟩
    else
      let (tokens, d) := c.round
      (scanWithin n d).map fun s => ⟨tokens ++ s.tokens, s.stop⟩

/-- The tokens ahead, or `none` if the scanner comes to a place it cannot leave.
A round that moves takes a character at least, so as many rounds as there are
characters are enough. -/
def scan? (c : Cursor) : Option TokenStream := c.scanWithin c.rest.length

end Cursor

/-- The tokens of a source text, or `none` if the scanner cannot come to its end. -/
def TokenStream.ofSource? (source : String) : Option TokenStream :=
  (Cursor.mk source.toList {}).scan?

end SolidityInterface
