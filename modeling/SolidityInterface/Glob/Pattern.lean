/-
  Patterns for file names: a star stands for any text, a question mark for any
  character, and brackets for one of the characters in them, or for any other if
  an exclamation mark comes first. A bracket that is not closed stands for itself.
-/

namespace SolidityInterface.Glob

/-- A set of characters between brackets. -/
structure CharSet where
  isNegated : Bool := false
  singles : List Char := []
  ranges : List (Char × Char) := []

namespace CharSet

/-- Whether a character is in a set. -/
def contains (s : CharSet) (c : Char) : Bool :=
  (s.singles.contains c || s.ranges.any fun r => r.1 ≤ c && c ≤ r.2) != s.isNegated

/-- Cuts the text between brackets at the dashes that stand for a range. The next
`skip` characters cannot be such dashes; `front` holds the characters since the last
cut, the last first. -/
def cut (skip : Nat) (front : List Char) : List Char → List (List Char)
  | [] => [front.reverse]
  | c :: rest =>
    if skip = 0 && c = '-' then front.reverse :: cut 2 [] rest
    else cut (skip - 1) (c :: front) rest

/-- Makes a dash at the end a character of the last piece. -/
def closeLast : List (List Char) → List (List Char)
  | [piece, []] => [piece ++ ['-']]
  | piece :: rest => piece :: closeLast rest
  | [] => []

/-- Drops the ranges whose ends are in the wrong order, with both ends. -/
def dropEmpty : List (List Char) → List (List Char)
  | [] => []
  | piece :: rest =>
    match dropEmpty rest with
    | [] => [piece]
    | next :: more =>
      match piece.getLast?, next.head? with
      | some a, some b =>
        if b < a then (piece.dropLast ++ next.tail) :: more else piece :: next :: more
      | _, _ => piece :: next :: more

/-- The ranges between neighbouring pieces. -/
def between : List (List Char) → List (Char × Char)
  | a :: b :: rest =>
    match a.getLast?, b.head? with
    | some x, some y => (x, y) :: between (b :: rest)
    | none, some _ => ('-', '-') :: between (b :: rest)
    | _, none => between (b :: rest)
  | _ => []

/-- The set that the text between brackets stands for. -/
def ofText (s : List Char) : CharSet :=
  let skip := if s.head? = some '!' then 2 else 1
  match dropEmpty (closeLast (cut skip [] s)) with
  | ('!' :: first) :: rest =>
    { isNegated := true, singles := first ++ rest.flatten, ranges := between (first :: rest) }
  | pieces => { singles := pieces.flatten, ranges := between pieces }

end CharSet

/-- A piece of a pattern. -/
inductive Piece where
  | star
  | anyChar
  | oneOf (set : CharSet)
  | literal (c : Char)

/-- The text between brackets and the text behind them, for a text behind an opening
bracket. A closing bracket in the first place closes nothing. -/
def bracket? (s : List Char) : Option (List Char × List Char) :=
  let mark := if s.head? = some '!' then ['!'] else []
  let s := s.drop mark.length
  let first := if s.head? = some ']' then [']'] else []
  let s := s.drop first.length
  match s.dropWhile (· ≠ ']') with
  | _ :: rest => some (mark ++ first ++ s.takeWhile (· ≠ ']'), rest)
  | [] => none

/-- The pieces of a pattern with at most a number of characters. -/
def piecesWithin : Nat → List Char → List Piece
  | 0, _ | _, [] => []
  | n + 1, '*' :: rest => .star :: piecesWithin n rest
  | n + 1, '?' :: rest => .anyChar :: piecesWithin n rest
  | n + 1, '[' :: rest =>
    match bracket? rest with
    | some (s, rest) => .oneOf (CharSet.ofText s) :: piecesWithin n rest
    | none => .literal '[' :: piecesWithin n rest
  | n + 1, c :: rest => .literal c :: piecesWithin n rest

/-- The pieces of a pattern. -/
def pieces (pattern : List Char) : List Piece := piecesWithin pattern.length pattern

/-- Whether a piece that stands for one character stands for the given one. -/
def Piece.accepts (c : Char) : Piece → Bool
  | star => false
  | anyChar => true
  | oneOf set => set.contains c
  | literal d => c = d

/-- For each end of a text, from the whole to the empty one, whether it or a shorter
one passes, if `ends` tells which ends pass. -/
def orShorter : List Bool → List Bool
  | [] => []
  | b :: rest =>
    let shorter := orShorter rest
    (b || shorter.headD false) :: shorter

/-- For each end of a text, whether it is a character that a piece accepts and then an
end that passes, if `ends` tells which ends pass. -/
def andThen (p : Piece) : List Char → List Bool → List Bool
  | c :: s, _ :: ends => (p.accepts c && ends.headD false) :: andThen p s ends
  | _, _ => [false]

/-- For each end of a text, from the whole to the empty one, whether pieces match it.
Each piece takes one pass over the text. -/
def endsMatched (s : List Char) : List Piece → List Bool
  | [] => s.map (fun _ => false) ++ [true]
  | .star :: rest => orShorter (endsMatched s rest)
  | p :: rest => andThen p s (endsMatched s rest)

/-- Whether pieces match a whole text. -/
def matchPieces (pieces : List Piece) (s : List Char) : Bool := (endsMatched s pieces).headD false

/-- Whether a pattern matches a name. -/
def matchName (pattern name : String) : Bool := matchPieces (pieces pattern.toList) name.toList

/-- Whether a text holds a character with a meaning in patterns. -/
def hasMagic (s : String) : Bool := s.toList.any fun c => c = '*' || c = '?' || c = '['

/-- Whether a name starts with a dot. -/
def isHidden (s : String) : Bool := s.toList.head? = some '.'

end SolidityInterface.Glob
