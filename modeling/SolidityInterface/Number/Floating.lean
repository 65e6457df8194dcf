import SolidityInterface.Number.Shortest

/-
  Floating-point numbers: a sign and a binary number, the two infinities, and the
  value that is no number. Their text has the fewest digits that read back. It is
  positional if the first digit stands between the fourth place behind the point
  and the sixteenth in front of it, and has an exponent otherwise.
-/

namespace SolidityInterface.Number

/-- A floating-point number. -/
inductive Floating where
  | finite (isNegative : Bool) (size : Binary)
  | infinite (isNegative : Bool)
  | notANumber
deriving DecidableEq

namespace Floating

/-- The floating-point number nearest to a decimal with a sign. -/
def ofDecimal (isNegative : Bool) (d : Decimal) : Floating :=
  match Binary.ofDecimal? d with
  | some x => finite isNegative x
  | none => infinite isNegative

/-- Whether a number is zero, of either sign. -/
def isZero : Floating → Bool
  | finite _ x => x.mantissa = 0
  | infinite _ | notANumber => false

/-- The digits of a positive decimal without zeros at the end. -/
def significant (d : Decimal) : List Char :=
  ((Nat.toDigits 10 d.digits).reverse.dropWhile (· = '0')).reverse

/-- The exponent of the first digit of a decimal. -/
def leading (d : Decimal) : Int := (Nat.toDigits 10 d.digits).length - 1 + d.exponent

/-- Some zeros. -/
def zeros (n : Nat) : List Char := List.replicate n '0'

/-- Digits with a point, the first of them at the place `e`. -/
def positional (digits : List Char) (e : Int) : List Char :=
  if e < 0 then '0' :: '.' :: zeros ((-e).toNat - 1) ++ digits
  else
    let whole := digits.take (e.toNat + 1)
    let fraction := digits.drop (e.toNat + 1)
    whole ++ zeros (e.toNat + 1 - whole.length) ++ '.' :: (if fraction.isEmpty then ['0'] else fraction)

/-- Digits with an exponent: a point stands behind the first of several digits, and
the exponent has a sign and two digits or more. -/
def exponential (digits : List Char) (e : Int) : List Char :=
  let mantissa := match digits with
    | first :: second :: rest => first :: '.' :: second :: rest
    | short => short
  let size := Nat.toDigits 10 e.natAbs
  mantissa ++ 'e' :: (if e < 0 then '-' else '+') :: zeros (2 - size.length) ++ size

/-- The text of a decimal. -/
def layout (d : Decimal) : List Char :=
  if d.digits = 0 then ['0', '.', '0']
  else if -4 ≤ leading d && leading d < 16 then positional (significant d) (leading d)
  else exponential (significant d) (leading d)

/-- The sign of a negative number. -/
def sign (isNegative : Bool) : String := if isNegative then "-" else ""

/-- The text of a number. -/
def render : Floating → String
  | finite isNegative x =>
    sign isNegative ++ String.ofList (layout (if x.mantissa = 0 then ⟨0, 0⟩ else x.shortest))
  | infinite isNegative => sign isNegative ++ "inf"
  | notANumber => "nan"

end Floating

end SolidityInterface.Number
