import SolidityInterface.Text.Split

/-
  Names of types as they are written in declarations: elementary types, dotted
  names, arrays and mappings. The length of an array is kept as the text between
  its brackets.
-/

namespace SolidityInterface

/-- A dotted name, one entry a segment: `Lib.Position` is `["Lib", "Position"]`. -/
abbrev DottedName := List String

namespace DottedName

instance : LawfulBEq DottedName := inferInstanceAs (LawfulBEq (List String))

/-- The segments of a dotted text. -/
def ofString (s : String) : DottedName := Text.splitString '.' s

/-- The text of a dotted name. -/
def render (n : DottedName) : String := ".".intercalate n

/-- The text before the last dot, if there is one. -/
def qualifier? (n : DottedName) : Option String :=
  if n.length ≤ 1 then none else some (render n.dropLast)

/-- The last segment. -/
def base (n : DottedName) : String := n.getLastD ""

end DottedName

/-- The name of a type. -/
inductive TypeName where
  /-- A built-in type, by its name. A function type is the one named `function`. -/
  | elementary (name : String)
  /-- A struct, an enum, a contract or a value type, by its dotted name. -/
  | named (path : DottedName)
  /-- An array, with the text of its length if it has a fixed one. -/
  | array (base : TypeName) (length : Option String)
  /-- A mapping from keys to values. -/
  | mapping (key value : TypeName)
deriving DecidableEq

end SolidityInterface
