/-
SumSheet.Number.Binary — a finite double as a whole number times a power
of two.

`Binary.ofFloat?` takes a double apart into sign, whole mantissa and
exponent, and `Binary.toFloat` puts one together again. What lies
between is arithmetic on `Nat` and `Int`, so everything that must be
exact (rounding to a whole number, the remainder of a division, the
decimal digits of a value) is computed there.

A double that is not finite has no such form; `ofFloat?` gives `none`.
-/

namespace SumSheet.Number

/-- The power of two with this exponent. -/
def pow2 (n : Nat) : Nat := Nat.pow 2 n

/-- The value `± mantissa · 2 ^ exponent`. -/
structure Binary where
  negative : Bool
  mantissa : Nat
  exponent : Int
  deriving DecidableEq, Repr

/-- The number of bits of a double that hold its fraction. -/
def fractionBits : Nat := 52

/-- The exponent of the smallest positive double. -/
def leastExponent : Int := -1074

namespace Binary

/-- Takes a double apart; `none` for an infinity or NaN. -/
def ofFloat? (x : Float) : Option Binary :=
  let bits := x.toBits.toNat
  let fraction := bits % pow2 fractionBits
  let field := bits / pow2 fractionBits % 2048
  let negative := bits / pow2 63 == 1
  if field == 2047 then none
  else if field == 0 then some ⟨negative, fraction, leastExponent⟩
  else some ⟨negative, fraction + pow2 fractionBits, field - 1 + leastExponent⟩

/-- How far the mantissa can be shifted up before it fills its bits or the exponent is least. -/
def headroom (b : Binary) : Nat :=
  min (fractionBits - b.mantissa.log2) (b.exponent - leastExponent).toNat

/-- The bits of the double with this value, which must be one: a mantissa below `2 ^ 53`, an
exponent of at least `leastExponent`, and a product in the range of doubles. -/
def toBits (b : Binary) : Nat :=
  let sign := if b.negative then pow2 63 else 0
  let mantissa := b.mantissa * pow2 b.headroom
  let exponent := b.exponent - b.headroom
  if mantissa < pow2 fractionBits then sign + mantissa
  else
    sign + (exponent - leastExponent + 1).toNat * pow2 fractionBits
      + (mantissa - pow2 fractionBits)

/-- The double with this value. -/
def toFloat (b : Binary) : Float :=
  Float.ofBits (UInt64.ofNat b.toBits)

end Binary

/-- The double `± n` for a whole number below `2 ^ 53`; zero keeps its sign. -/
def ofWhole (negative : Bool) (n : Nat) : Float :=
  Binary.toFloat ⟨negative, n, 0⟩

/-- The sign bit of a double is set. -/
def isNegative (x : Float) : Bool :=
  x.toBits.toNat / pow2 63 == 1

/-- Not a number. -/
def nan : Float := 0.0 / 0.0

/-- The greater of the two infinities, or the lesser. -/
def infinity (negative : Bool) : Float :=
  if negative then -1.0 / 0.0 else 1.0 / 0.0

end SumSheet.Number
