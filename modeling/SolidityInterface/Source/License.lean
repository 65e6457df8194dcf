import SolidityInterface.Text.Blank

/-
  The licence of a source file: the identifier behind `SPDX-License-Identifier:`
  on a comment line before the first pragma.
-/

namespace SolidityInterface.License

/-- What announces an identifier. -/
def mark : List Char := "SPDX-License-Identifier:".toList

/-- Whether a character can belong to an identifier. -/
def isPart (c : Char) : Bool := !Text.isBlank c && c ≠ '*'

/-- The identifier behind the first mark that has one. -/
def onLine : List Char → Option (List Char)
  | [] => none
  | c :: rest =>
    match mark.isPrefixOf? (c :: rest) with
    | some behind =>
      let identifier := (behind.dropWhile Text.isBlank).takeWhile isPart
      if identifier.isEmpty then onLine rest else some identifier
    | none => onLine rest

/-- Whether a line without the blanks around it is one of a comment. -/
def isComment : List Char → Bool
  | '/' :: '/' :: _ | '/' :: '*' :: _ | '*' :: _ => true
  | _ => false

/-- The identifier on the lines before one that starts with `pragma`. -/
def ofLines : List (List Char) → Option (List Char)
  | [] => none
  | line :: rest =>
    let line := Text.trim line
    if "pragma".toList.isPrefixOf line then none
    else if isComment line then
      match onLine line with
      | some identifier => some identifier
      | none => ofLines rest
    else ofLines rest

/-- The licence identifier that a source text declares. -/
def ofSource? (source : String) : Option String :=
  (ofLines (Text.lines source.toList)).map String.ofList

end SolidityInterface.License
