/-
  Cutting a text at a separator, and putting the pieces together again.
-/

namespace SolidityInterface.Text

/-- The pieces of a text between separators. There is always one more piece than
there are separators. -/
def split (sep : Char) : List Char → List (List Char)
  | [] => [[]]
  | c :: rest =>
    if c = sep then [] :: split sep rest
    else match split sep rest with
      | [] => [[c]]
      | piece :: pieces => (c :: piece) :: pieces

/-- The pieces of a string between separators. -/
def splitString (sep : Char) (s : String) : List String :=
  (split sep s.toList).map String.ofList

/-- Whether a string starts with a given one. -/
def startsWith (s start : String) : Bool := start.toList.isPrefixOf s.toList

end SolidityInterface.Text
