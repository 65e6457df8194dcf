/-
  Positions in a list. An index below zero counts from the end of the list.
-/

namespace SolidityInterface

/-- What stands at an index of a list. -/
inductive Lookup (α : Type) where
  | found (a : α)
  /-- The index lies behind the last element. -/
  | behind
  /-- The index lies before the first element, counted from the end. -/
  | before

namespace Lookup

variable {α : Type}

/-- What stands at an index. -/
def get (l : List α) (i : Int) : Lookup α :=
  if i < 0 then
    match l.reverse[i.natAbs - 1]? with
    | some a => found a
    | none => before
  else
    match l[i.toNat]? with
    | some a => found a
    | none => behind

end Lookup

end SolidityInterface
