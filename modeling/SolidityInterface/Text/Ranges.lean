/-
  Classes of characters given as ranges of code points. A table lists closed
  ranges in ascending order, and a look-up walks it from the front and stops
  at the first range that lies above the character, so a character of a low
  code point is settled after a few comparisons.
-/

namespace SolidityInterface.Text

/-- Whether `n` lies in one of the closed ranges of an ascending table. -/
def inRanges : List (Nat × Nat) → Nat → Bool
  | [], _ => false
  | (lo, hi) :: rest, n =>
    if n < lo then false
    else if n ≤ hi then true
    else inRanges rest n

end SolidityInterface.Text
