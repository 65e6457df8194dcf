import SolidityInterface.Token.Basic
import SolidityInterface.Text.Numeral

/-
  Words: keywords, the names of elementary types, and all other names. A word
  is a keyword before it is a type, and a type before it is an identifier.
-/

namespace SolidityInterface.Word

open Token (Kind)

/-- The keywords and their classes. -/
def keywords : List (String × Kind) :=
  [("contract", .kwContract), ("interface", .kwInterface), ("library", .kwLibrary),
   ("abstract", .kwAbstract), ("struct", .kwStruct), ("enum", .kwEnum),
   ("function", .kwFunction), ("modifier", .kwModifier), ("event", .kwEvent),
   ("error", .kwError), ("mapping", .kwMapping), ("storage", .kwStorage),
   ("memory", .kwMemory), ("calldata", .kwCalldata), ("public", .kwPublic),
   ("private", .kwPrivate), ("internal", .kwInternal), ("external", .kwExternal),
   ("view", .kwView), ("pure", .kwPure), ("payable", .kwPayable),
   ("virtual", .kwVirtual), ("override", .kwOverride), ("immutable", .kwImmutable),
   ("constant", .kwConstant), ("transient", .kwTransient), ("indexed", .kwIndexed),
   ("returns", .kwReturns), ("pragma", .kwPragma), ("import", .kwImport),
   ("is", .kwIs), ("using", .kwUsing), ("type", .kwType),
   ("constructor", .kwConstructor), ("receive", .kwReceive), ("fallback", .kwFallback)]

/-- The elementary types that are written without a size. -/
def plainTypes : List String :=
  ["address", "bool", "string", "bytes", "byte", "uint", "int", "fixed", "ufixed"]

/-- Whether a text is one or more decimal digits. -/
def isSize (s : List Char) : Bool := !s.isEmpty && s.all Text.isDecimal

/-- Whether a text is two sizes with an x between them. -/
def isFixedSize (s : List Char) : Bool :=
  match s.dropWhile Text.isDecimal with
  | 'x' :: places => isSize (s.takeWhile Text.isDecimal) && isSize places
  | _ => false

/-- Whether a text is `stem` followed by a tail that passes the test. -/
def hasTail (stem : String) (tail : List Char → Bool) (s : List Char) : Bool :=
  match stem.toList.isPrefixOf? s with
  | some rest => tail rest
  | none => false

/-- The text without one line feed at its end. -/
def dropFinalNewline (s : List Char) : List Char :=
  if s.getLast? = some '\n' then s.dropLast else s

/-- Whether a word is an elementary type with a size. One line feed at its end
is let pass. -/
def isSizedType (s : List Char) : Bool :=
  let word := dropFinalNewline s
  hasTail "uint" isSize word || hasTail "int" isSize word || hasTail "bytes" isSize word ||
    hasTail "ufixed" isFixedSize word || hasTail "fixed" isFixedSize word

/-- The class of a word. -/
def kind (word : String) : Kind :=
  match keywords.lookup word with
  | some k => k
  | none => if plainTypes.contains word || isSizedType word.toList then .elementary else .identifier

/-- Whether a character may stand in a word beside letters and numerals. -/
def isSign (c : Char) : Bool := c = '_' || c = '$'

/-- Whether a word may start with this character. -/
def isStart (c : Char) : Bool := Text.isLetter c || isSign c

/-- Whether a word may hold this character. -/
def isPart (c : Char) : Bool := Text.isAlphanumeric c || isSign c

end SolidityInterface.Word
