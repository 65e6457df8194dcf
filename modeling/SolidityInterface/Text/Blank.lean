import SolidityInterface.Text.Ranges

/-
  White space and lines. Blank characters are the Unicode white space together
  with the four information separators U+001C to U+001F. A line ends at a line
  feed, a carriage return, both in this order, a vertical tab, a form feed, the
  separators U+001C to U+001E, U+0085, U+2028 or U+2029.
-/

namespace SolidityInterface.Text

/-- The blank characters, as ascending closed ranges of code points. -/
def blankRanges : List (Nat × Nat) :=
  [(0x9, 0xD), (0x1C, 0x20), (0x85, 0x85), (0xA0, 0xA0), (0x1680, 0x1680), (0x2000, 0x200A),
   (0x2028, 0x2029), (0x202F, 0x202F), (0x205F, 0x205F), (0x3000, 0x3000)]

/-- Whether a character is white space. -/
def isBlank (c : Char) : Bool := inRanges blankRanges c.toNat

/-- The text without the blanks at either end. -/
def trim (s : List Char) : List Char :=
  ((s.dropWhile isBlank).reverse.dropWhile isBlank).reverse

/-- The characters that end a line. -/
def lineBreakRanges : List (Nat × Nat) :=
  [(0xA, 0xD), (0x1C, 0x1E), (0x85, 0x85), (0x2028, 0x2029)]

/-- Whether a character ends a line. -/
def isLineBreak (c : Char) : Bool := inRanges lineBreakRanges c.toNat

/-- The lines of a text, without what ends them. A carriage return and the line
feed after it end one line, and a text that ends with a line end has no empty
line after it. -/
def lines (s : List Char) : List (List Char) := go [] s
where
  /-- The lines of `rest`, the first of them begun with `line` in reverse. -/
  go (line : List Char) : List Char → List (List Char)
    | [] => if line.isEmpty then [] else [line.reverse]
    | '\r' :: '\n' :: rest => line.reverse :: go [] rest
    | c :: rest => if isLineBreak c then line.reverse :: go [] rest else go (c :: line) rest

end SolidityInterface.Text
