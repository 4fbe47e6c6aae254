/-
SumSheet.Number.Quotient — positive rational numbers, and the doubles
nearest to them.

A value that is no double, such as a decimal fraction, is kept as a
quotient of two whole numbers until it is rounded, so that it is rounded
once.

`nearest` rounds to a whole number and `toFloat` to a double. Both take
the even neighbour where two are equally near. For `toFloat` the rounding
is that of a whole number of units, and the unit is the gap between the
doubles of that size: `unitExponent` is its power of two.
-/
import SumSheet.Number.Binary

namespace SumSheet.Number

/-- A positive rational number. -/
structure Quotient where
  num : Nat
  den : Nat
  deriving DecidableEq, Repr

namespace Quotient

/-- The value of a double, apart from its sign. -/
def ofBinary (b : Binary) : Quotient :=
  ⟨b.mantissa * pow2 b.exponent.toNat, pow2 (-b.exponent).toNat⟩

/-- The nearest whole number, a half going to the even neighbour. -/
def nearest (v : Quotient) : Nat :=
  let whole := v.num / v.den
  let rest := v.num % v.den
  if 2 * rest < v.den then whole
  else if v.den < 2 * rest then whole + 1
  else whole + whole % 2

/-- The value times a power of two. -/
def shift (v : Quotient) (power : Int) : Quotient :=
  ⟨v.num * pow2 power.toNat, v.den * pow2 (-power).toNat⟩

/-- The exponent `e` with `2 ^ e ≤ v < 2 ^ (e + 1)`, for a value that is not zero. -/
def binaryExponent (v : Quotient) : Int :=
  let e : Int := v.num.log2 - v.den.log2
  let scaled := v.shift (-e)
  if scaled.num < scaled.den then e - 1 else e

/-- The exponent of the gap between the doubles around a value. -/
def unitExponent (v : Quotient) : Int :=
  max leastExponent (v.binaryExponent - fractionBits)

/-- The bits of infinity. -/
def infinityBits : Nat := 0x7ff0000000000000

/-- The bits of the nearest double. The bits of doubles are in the order of their values, and each
gap but the first is used by `pow2 fractionBits` of them. -/
def nearestBits (v : Quotient) : Nat :=
  let e := v.unitExponent
  let units := (v.shift (-e)).nearest
  min infinityBits ((e - leastExponent).toNat * pow2 fractionBits + units)

/-- The nearest double. -/
def toFloat (v : Quotient) : Float :=
  if v.num = 0 then 0.0 else Float.ofBits (UInt64.ofNat v.nearestBits)

end Quotient

end SumSheet.Number
