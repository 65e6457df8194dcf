/-
  Lists without repetitions that remember in which order their elements came.
-/

namespace SolidityInterface.Distinct

variable {α : Type} [DecidableEq α]

/-- The list with an element at its end, unless it holds it already. -/
def add (l : List α) (a : α) : List α := if a ∈ l then l else l ++ [a]

/-- Adds some elements, one after the other. -/
def addAll (l new : List α) : List α := new.foldl add l

/-- The list with later copies of an element dropped. -/
def ofList (l : List α) : List α := addAll [] l

end SolidityInterface.Distinct
