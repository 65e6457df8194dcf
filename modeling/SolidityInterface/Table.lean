/-
  Tables: lists of keys with values, in the order in which the keys first came.
-/

namespace SolidityInterface

/-- A list of keys with values. The first entry of a key counts. -/
abbrev Table (κ α : Type) := List (κ × α)

namespace Table

variable {κ α : Type} [DecidableEq κ]

/-- The value of a key. -/
def get? (key : κ) : Table κ α → Option α
  | [] => none
  | (k, a) :: rest => if k = key then some a else get? key rest

/-- Puts a value at a key: in the place of the one that is there, or at the end. -/
def put (key : κ) (value : α) : Table κ α → Table κ α
  | [] => [(key, value)]
  | (k, a) :: rest => if k = key then (k, value) :: rest else (k, a) :: put key value rest

/-- Whether a key has a value. -/
def has (key : κ) (t : Table κ α) : Bool := (get? key t).isSome

/-- The table without a key. -/
def erase (key : κ) (t : Table κ α) : Table κ α := t.filter fun e => e.1 ≠ key

/-- The keys, in order. -/
def keys (t : Table κ α) : List κ := t.map (·.1)

end Table

end SolidityInterface
