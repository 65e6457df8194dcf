/-
  Line ends. A text that is read from a file has each of its line ends written as
  a line feed.
-/

namespace SolidityInterface.Text

/-- Writes a carriage return, alone or with a line feed behind it, as a line feed. -/
def unifyNewlines : List Char → List Char
  | [] => []
  | '\r' :: '\n' :: rest => '\n' :: unifyNewlines rest
  | '\r' :: rest => '\n' :: unifyNewlines rest
  | c :: rest => c :: unifyNewlines rest

/-- The text that some bytes stand for, if they are one. -/
def ofBytes? (bytes : ByteArray) : Option String :=
  (String.fromUTF8? bytes).map fun s => String.ofList (unifyNewlines s.toList)

end SolidityInterface.Text
