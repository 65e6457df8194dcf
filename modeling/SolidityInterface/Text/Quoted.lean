import SolidityInterface.Text.Printable

/-
  Texts in quotes. A backslash stands in front of the quote and of the backslash
  itself, the three common control characters have letters of their own, and any
  other character that cannot be printed is written as its code point in two, four
  or eight hexadecimal digits.
-/

namespace SolidityInterface.Text

/-- A number in at least `width` hexadecimal digits. -/
def hexDigits (width n : Nat) : List Char :=
  let digits := Nat.toDigits 16 n
  List.replicate (width - digits.length) '0' ++ digits

/-- The code point of a character, behind a letter that tells the number of its digits. -/
def codePoint (c : Char) : List Char :=
  let n := c.toNat
  if n < 0x100 then 'x' :: hexDigits 2 n
  else if n < 0x10000 then 'u' :: hexDigits 4 n
  else 'U' :: hexDigits 8 n

/-- A character as it stands between quotes. -/
def quotedChar (quote c : Char) : List Char :=
  if c = quote || c = '\\' then ['\\', c]
  else if c = '\n' then ['\\', 'n']
  else if c = '\r' then ['\\', 'r']
  else if c = '\t' then ['\\', 't']
  else if isPrintable c then [c]
  else '\\' :: codePoint c

/-- The quote around a text: a single one, or a double one around a text that holds
single ones only. -/
def quoteFor (s : List Char) : Char :=
  if s.contains '\x27' && !s.contains '\x22' then '\x22' else '\x27'

/-- A text in quotes. -/
def quoted (s : String) : String :=
  let quote := quoteFor s.toList
  String.ofList (quote :: s.toList.flatMap (quotedChar quote) ++ [quote])

end SolidityInterface.Text
