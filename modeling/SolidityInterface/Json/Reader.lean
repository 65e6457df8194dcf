import SolidityInterface.Json.Basic
import SolidityInterface.Table

/-
  Reading JSON. The grammar is the standard one, with the words NaN, Infinity and
  -Infinity as further numbers. A byte order mark at the start is refused, and so
  are control characters inside a text and integers of more than 4300 digits; of
  several faults the first counts.
-/

namespace SolidityInterface.Json

/-- The text behind the blanks at its front. -/
def skipBlanks (s : List Char) : List Char := s.dropWhile Char.isWhitespace

/-- Why a text holds no value. -/
inductive ReadError where
  /-- It breaks the grammar. -/
  | invalid
  /-- An integer in it has too many digits. -/
  | oversized
deriving DecidableEq

/-- The value of a hexadecimal digit. -/
def hexDigit? (c : Char) : Option Nat :=
  if c.isDigit then some (c.toNat - 48)
  else if 'a' ≤ c && c ≤ 'f' then some (c.toNat - 87)
  else if 'A' ≤ c && c ≤ 'F' then some (c.toNat - 55)
  else none

/-- The number that four hexadecimal digits give. -/
def hexCode? (a b c d : Char) : Option Nat := do
  return (← hexDigit? a) * 4096 + (← hexDigit? b) * 256 + (← hexDigit? c) * 16 + (← hexDigit? d)

/-- The character for a letter behind a backslash. -/
def escapedLetter? : Char → Option Char
  | '\x22' => some '\x22'
  | '\\' => some '\\'
  | '/' => some '/'
  | 'b' => some '\x08'
  | 'f' => some '\x0c'
  | 'n' => some '\n'
  | 'r' => some '\r'
  | 't' => some '\t'
  | _ => none

/-- The codes of the characters up to the closing quote, and what stands behind it.
The codes before are given in reverse. -/
def codesFrom (before : List Nat) : List Char → Except ReadError (List Nat × List Char)
  | '\x22' :: rest => .ok (before.reverse, rest)
  | '\\' :: 'u' :: a :: b :: c :: d :: rest =>
    match hexCode? a b c d with
    | some code => codesFrom (code :: before) rest
    | none => .error .invalid
  | '\\' :: letter :: rest =>
    match escapedLetter? letter with
    | some c => codesFrom (c.toNat :: before) rest
    | none => .error .invalid
  | c :: rest =>
    if c.toNat < 0x20 || c = '\\' then .error .invalid else codesFrom (c.toNat :: before) rest
  | [] => .error .invalid

/-- Whether a code is the first half of a pair that stands for one character. -/
def isHighHalf (code : Nat) : Bool := 0xD800 ≤ code && code < 0xDC00

/-- Whether a code is the second half of such a pair. -/
def isLowHalf (code : Nat) : Bool := 0xDC00 ≤ code && code < 0xE000

/-- The characters that codes stand for. A half without its other half gives the
replacement character. -/
def charactersOf : List Nat → List Char
  | high :: low :: rest =>
    if isHighHalf high && isLowHalf low then
      Char.ofNat (0x10000 + (high - 0xD800) * 0x400 + (low - 0xDC00)) :: charactersOf rest
    else alone high :: charactersOf (low :: rest)
  | [code] => [alone code]
  | [] => []
where
  /-- The character of a code that is not in a pair. -/
  alone (code : Nat) : Char :=
    Char.ofNat (if isHighHalf code || isLowHalf code then 0xFFFD else code)

/-- The text behind an opening quote, and what stands behind its closing quote. -/
def quotedText (s : List Char) : Except ReadError (String × List Char) :=
  (codesFrom [] s).map fun (codes, rest) => (String.ofList (charactersOf codes), rest)

/-- The whole part of a number: zero, or digits that start with another one. -/
def wholePart : List Char → List Char
  | '0' :: _ => ['0']
  | s => s.takeWhile Char.isDigit

/-- The digits of the fraction at the front, which stand behind a point. -/
def fractionPart : List Char → List Char
  | '.' :: rest => rest.takeWhile Char.isDigit
  | _ => []

/-- The exponent at the front: its mark, a sign and one digit or more. -/
structure Exponent where
  isNegative : Bool
  digits : List Char
  /-- The number of characters it takes. -/
  width : Nat

/-- The exponent at the front, if there is one. -/
def exponentPart : List Char → Option Exponent
  | e :: rest =>
    if e = 'e' || e = 'E' then
      let sign := match rest with
        | '+' :: _ => ['+']
        | '-' :: _ => ['-']
        | _ => []
      let digits := (rest.drop sign.length).takeWhile Char.isDigit
      if digits.isEmpty then none else some ⟨sign = ['-'], digits, 1 + sign.length + digits.length⟩
    else none
  | [] => none

/-- The number that a list of digits gives. -/
def digitsValue (s : List Char) : Nat := s.foldl (fun n c => n * 10 + (c.toNat - 48)) 0

/-- The value of an exponent. -/
def Exponent.value (e : Exponent) : Int :=
  if e.isNegative then -(digitsValue e.digits : Int) else digitsValue e.digits

/-- The most digits of an integer. -/
def maxDigits : Nat := 4300

/-- The integer with some digits. -/
def integerOf (isNegative : Bool) (digits : List Char) : Except ReadError Json :=
  if maxDigits < digits.length then .error .oversized
  else
    let n : Int := digitsValue digits
    .ok (.integer (if isNegative then -n else n))

/-- The number at the front and the text behind it. -/
def number (s : List Char) : Except ReadError (Json × List Char) :=
  let isNegative := s.head? = some '-'
  let s := if isNegative then s.tail else s
  let whole := wholePart s
  if whole.isEmpty then .error .invalid
  else
    let s := s.drop whole.length
    let fraction := fractionPart s
    let s := if fraction.isEmpty then s else s.drop (fraction.length + 1)
    let exponent := exponentPart s
    let s := s.drop ((exponent.map (·.width)).getD 0)
    if fraction.isEmpty && exponent.isNone then (integerOf isNegative whole).map (·, s)
    else
      let d : Number.Decimal :=
        ⟨digitsValue (whole ++ fraction), (exponent.map (·.value)).getD 0 - fraction.length⟩
      .ok (.floating (.ofDecimal isNegative d), s)

/-- The word at the front that stands for a value, and the text behind it. -/
def word? (s : List Char) : Option (Json × List Char) :=
  let words : List (String × Json) :=
    [("null", .null), ("true", .bool true), ("false", .bool false),
     ("NaN", .floating .notANumber), ("Infinity", .floating (.infinite false)),
     ("-Infinity", .floating (.infinite true))]
  words.findSome? fun (word, value) => (word.toList.isPrefixOf? s).map (value, ·)

mutual

/-- The value at the front, nested less than `n` deep, and the text behind it. -/
def valueWithin : Nat → List Char → Except ReadError (Json × List Char)
  | 0, _ => .error .invalid
  | n + 1, s =>
    match s with
    | '\x22' :: rest => (quotedText rest).map fun (s, rest) => (.text s, rest)
    | '[' :: rest =>
      match skipBlanks rest with
      | ']' :: rest => .ok (.list [], rest)
      | rest => (itemsWithin n [] rest).map fun (items, rest) => (.list items, rest)
    | '\x7b' :: rest =>
      match skipBlanks rest with
      | '\x7d' :: rest => .ok (.object [], rest)
      | rest => (membersWithin n [] rest).map fun (members, rest) => (.object members, rest)
    | s =>
      match word? s with
      | some found => .ok found
      | none => number s

/-- The items so far, which are given in reverse, one more and those behind it, up to
the closing bracket. -/
def itemsWithin : Nat → List Json → List Char → Except ReadError (List Json × List Char)
  | 0, _, _ => .error .invalid
  | n + 1, items, s => do
    let (item, rest) ← valueWithin n s
    match skipBlanks rest with
    | ']' :: rest => return ((item :: items).reverse, rest)
    | ',' :: rest => itemsWithin n (item :: items) (skipBlanks rest)
    | _ => .error .invalid

/-- The members so far, one more and those behind it, up to the closing brace. -/
def membersWithin : Nat → List (String × Json) → List Char →
    Except ReadError (List (String × Json) × List Char)
  | 0, _, _ => .error .invalid
  | n + 1, members, s =>
    match s with
    | '\x22' :: rest => do
      let (key, rest) ← quotedText rest
      match skipBlanks rest with
      | ':' :: rest =>
        let (value, rest) ← valueWithin n (skipBlanks rest)
        match skipBlanks rest with
        | '\x7d' :: rest => return (Table.put key value members, rest)
        | ',' :: rest => membersWithin n (Table.put key value members) (skipBlanks rest)
        | _ => .error .invalid
      | _ => .error .invalid
    | _ => .error .invalid

end

/-- The value that a text holds. Every level takes a character, so the length of
the text bounds the depth. -/
def ofString (s : String) : Except ReadError Json := do
  let s := s.toList
  let (value, rest) ← valueWithin (2 * s.length + 2) (skipBlanks s)
  if (skipBlanks rest).isEmpty then return value else .error .invalid

end SolidityInterface.Json
