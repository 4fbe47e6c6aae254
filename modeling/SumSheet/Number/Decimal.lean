/-
SumSheet.Number.Decimal — decimal digits of a positive value, and the
double a decimal denotes.

  §1 Digits of a whole number — how many there are, and what they are.
  §2 Significant digits — `significant count value` is the decimal of
     `count` digits nearest to `value`, a half going to the even neighbour.
  §3 Reading — `ofDecimal m e` is the double nearest to `m · 10 ^ e`.

A positive value is given as a quotient of two whole numbers, so that no
step rounds but the last.
-/
import SumSheet.Number.Quotient

namespace SumSheet.Number

/-! ## §1 Digits of a whole number -/

/-- The number of decimal digits of `n`; zero has none. -/
def digitCount (n : Nat) : Nat :=
  if n = 0 then 0 else digitCount (n / 10) + 1
termination_by n

/-- The digit with the value `n % 10`. -/
def digitChar (n : Nat) : Char :=
  Char.ofNat ('0'.toNat + n % 10)

/-- The value of a decimal digit. -/
def digitValue (c : Char) : Nat :=
  c.toNat - '0'.toNat

/-- The last `count` decimal digits of `n`, the highest first. -/
def lastDigits : (count n : Nat) → List Char
  | 0, _ => []
  | count + 1, n => lastDigits count (n / 10) ++ [digitChar n]

/-- The number that a list of decimal digits spells. -/
def ofDigits (digits : List Char) : Nat :=
  digits.foldl (fun n c => 10 * n + digitValue c) 0

/-- The decimal digits of a whole number, without leading zeros. -/
def wholeText (n : Nat) : List Char :=
  if n = 0 then ['0'] else lastDigits (digitCount n) n

/-! ## §2 Significant digits -/

/-- The power of ten with this exponent. -/
def pow10 (n : Nat) : Nat := Nat.pow 10 n

namespace Quotient

/-- The value times `10 ^ power`. -/
def scale (v : Quotient) (power : Int) : Quotient :=
  ⟨v.num * pow10 power.toNat, v.den * pow10 (-power).toNat⟩

/-- The exponent `e` with `10 ^ e ≤ v < 10 ^ (e + 1)`. -/
def decimalExponent (v : Quotient) : Int :=
  if v.den ≤ v.num then digitCount (v.num / v.den) - 1
  else -digitCount ((v.den + v.num - 1) / v.num - 1)

end Quotient

/-- The value `0.d₁d₂… · 10 ^ (exponent + 1)`, where `digits` holds `count` decimal digits and the
first of them is not zero. -/
structure Decimal where
  count : Nat
  digits : Nat
  exponent : Int
  deriving DecidableEq, Repr

/-- The decimal of `count` significant digits nearest to a positive value. Rounding up can give
one digit too many, which is then a one followed by zeros. -/
def significant (count : Nat) (v : Quotient) : Decimal :=
  let exponent := v.decimalExponent
  let digits := (v.scale (count - 1 - exponent)).nearest
  if digits < pow10 count then ⟨count, digits, exponent⟩
  else ⟨count, digits / 10, exponent + 1⟩

/-! ## §3 Reading -/

/-- Every double lies strictly between zero and `10 ^ greatestDecade`. -/
def greatestDecade : Int := 310

/-- Every positive value below `10 ^ leastDecade` is nearer to zero than to any other double. -/
def leastDecade : Int := -330

/-- The double nearest to `mantissa · 10 ^ exponent`. Values out of range are settled first, so
that no power of ten is larger than it has to be. -/
def ofDecimal (mantissa : Nat) (exponent : Int) : Float :=
  let decade := exponent + digitCount mantissa
  if mantissa = 0 || decade < leastDecade then 0.0
  else if greatestDecade < decade then infinity false
  else Quotient.toFloat (Quotient.scale ⟨mantissa, 1⟩ exponent)

end SumSheet.Number
