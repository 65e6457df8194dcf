import SolidityInterface.Number.Binary

/-
  The shortest decimal that reads back as a given binary number. The decimals with
  a given last place form a grid, and a number has two neighbours on it. The grids
  are tried from the coarsest to the finest; the first one with a neighbour that
  reads back decides, and if both do, the nearer one is taken, and of two that are
  equally near the even one. The grid of the exponent of the number itself holds
  the number, so the search ends there at the latest.
-/

namespace SolidityInterface.Number.Binary

/-- The quotient of a number and `10 ^ g`. -/
def gridRatio (x : Binary) (g : Int) : Nat × Nat :=
  (x.mantissa * Nat.pow 2 x.exponent.toNat * Nat.pow 10 (-g).toNat,
    Nat.pow 2 (-x.exponent).toNat * Nat.pow 10 g.toNat)

/-- The point of the grid of `10 ^ g` that lies nearest to a number. -/
def nearestOn (x : Binary) (g : Int) : Decimal :=
  let (n, d) := x.gridRatio g
  ⟨roundDiv n d, g⟩

/-- The other neighbour of a number on that grid. -/
def secondOn (x : Binary) (g : Int) : Decimal :=
  let (n, d) := x.gridRatio g
  ⟨if roundDiv n d = n / d then n / d + 1 else n / d, g⟩

/-- Whether a decimal is read as the given number. -/
def isReadFrom (x : Binary) (d : Decimal) : Bool := ofDecimal? d = some x

/-- The neighbour on a grid that reads back. -/
def hit? (x : Binary) (g : Int) : Option Decimal :=
  if x.isReadFrom (x.nearestOn g) then some (x.nearestOn g)
  else if x.isReadFrom (x.secondOn g) then some (x.secondOn g)
  else none

/-- The first hit on the grid of `10 ^ g` and up to `n` finer ones. -/
def searchFrom (x : Binary) : Nat → Int → Decimal
  | 0, g => x.nearestOn g
  | n + 1, g =>
    match x.hit? g with
    | some d => d
    | none => x.searchFrom n (g - 1)

/-- The shortest decimal that reads back as a number. -/
def shortest (x : Binary) : Decimal :=
  let (n, d) := x.gridRatio 0
  let start : Int := (Nat.toDigits 10 (n / d)).length
  x.searchFrom (start - min x.exponent 0).toNat start

end SolidityInterface.Number.Binary
