/-
  Non-negative numbers as a double-precision word holds them: a mantissa of at most
  53 bits times a power of two, with exponents from -1074 to 971. All arithmetic is
  on natural numbers and exact. Rounding goes to the nearest such number, and a tie
  to the one with the even mantissa.
-/

namespace SolidityInterface.Number

/-- A quotient, rounded to the nearest integer. A half goes to the even neighbour. -/
def roundDiv (num den : Nat) : Nat :=
  let q := num / den
  let r := num % den
  if 2 * r < den || (2 * r = den && q % 2 = 0) then q else q + 1

/-- The number `digits * 10 ^ exponent`. -/
structure Decimal where
  digits : Nat
  exponent : Int
deriving DecidableEq

/-- The number `mantissa * 2 ^ exponent`. -/
structure Binary where
  mantissa : Nat
  exponent : Int
deriving DecidableEq

namespace Binary

/-- The bits of a mantissa. -/
def precision : Nat := 53

/-- The exponent of the least number above zero. -/
def minExponent : Int := -1074

/-- The exponent of the largest numbers. -/
def maxExponent : Int := 971

/-- Zero. -/
def zero : Binary := ⟨0, minExponent⟩

/-- The quotient of `num / den` and `2 ^ e`, as a quotient. -/
def scaled (num den : Nat) (e : Int) : Nat × Nat :=
  (num * Nat.pow 2 (-e).toNat, den * Nat.pow 2 e.toNat)

/-- The exponent that gives a positive quotient a mantissa of full precision. The
logarithms leave two exponents to choose from. -/
def fullExponent (num den : Nat) : Int :=
  let e : Int := num.log2 - den.log2 - precision
  let (n, d) := scaled num den e
  if n < d * Nat.pow 2 precision then e else e + 1

/-- The number nearest to a quotient, unless it lies above the largest one. -/
def nearest? (num den : Nat) : Option Binary :=
  if num = 0 then some zero
  else
    let e := max (fullExponent num den) minExponent
    let (n, d) := scaled num den e
    let m := roundDiv n d
    let x : Binary :=
      if m = Nat.pow 2 precision then ⟨Nat.pow 2 (precision - 1), e + 1⟩ else ⟨m, e⟩
    if x.exponent ≤ maxExponent then some x else none

/-- The number nearest to a decimal, unless it lies above the largest one. Decimals
that are far out of range are told by their size alone. -/
def ofDecimal? (d : Decimal) : Option Binary :=
  if d.digits = 0 then some zero
  else if 400 < d.exponent then none
  else if d.digits.log2 + 3 * d.exponent < 2 * minExponent then some zero
  else nearest? (d.digits * Nat.pow 10 d.exponent.toNat) (Nat.pow 10 (-d.exponent).toNat)

end Binary

end SolidityInterface.Number
