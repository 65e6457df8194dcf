import SolidityInterface.Number.Floating
import SolidityInterface.Text.Quoted

/-
  JSON values. An object keeps its members in the order in which their keys first
  came; a key that comes again takes the later value. A number with a fraction or
  an exponent is a floating-point number.
-/

namespace SolidityInterface

/-- A JSON value. -/
inductive Json where
  | null
  | bool (b : Bool)
  | integer (n : Int)
  /-- A number that is not written as an integer. -/
  | floating (x : Number.Floating)
  | text (s : String)
  | list (items : List Json)
  | object (members : List (String × Json))

namespace Json

instance : Inhabited Json := ⟨null⟩

/-- Whether a value counts as true: all do but null, false, zero and what is empty. -/
def isTruthy : Json → Bool
  | null => false
  | bool b => b
  | integer n => n ≠ 0
  | floating x => !x.isZero
  | text s => !s.isEmpty
  | list items => !items.isEmpty
  | object members => !members.isEmpty

mutual

/-- The text of a value inside a list or an object. -/
def inner : Json → String
  | null => "None"
  | bool true => "True"
  | bool false => "False"
  | integer n => toString n
  | floating x => x.render
  | text s => Text.quoted s
  | list items => "[" ++ ", ".intercalate (innerList items) ++ "]"
  | object members => "\x7b" ++ ", ".intercalate (innerMembers members) ++ "\x7d"

/-- The texts of the items of a list. -/
def innerList : List Json → List String
  | [] => []
  | j :: rest => inner j :: innerList rest

/-- The texts of the members of an object. -/
def innerMembers : List (String × Json) → List String
  | [] => []
  | (k, j) :: rest => (Text.quoted k ++ ": " ++ inner j) :: innerMembers rest

end

/-- The text of a value where text is wanted: a text as it is, and any other value
in its display form. -/
def display : Json → String
  | text s => s
  | j => inner j

/-- The value, if it is a text. -/
def text? : Json → Option String
  | text s => some s
  | _ => none

end Json

end SolidityInterface
