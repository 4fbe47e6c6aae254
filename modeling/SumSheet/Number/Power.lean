/-
SumSheet.Number.Power — powers with a whole exponent, decimal rounding,
and the length of a hypotenuse.

`powerOf` multiplies by repeated squaring, and divides one by the result
if the exponent is negative. The order of its multiplications decides
the last bit of the result.

`roundTo x places` scales by a power of ten, rounds to a whole number
and scales back. The scale is a double like any other: for many places
it overflows or vanishes, and the result is then not a number.
-/
import SumSheet.Number.Whole

namespace SumSheet.Number

/-- `acc` times `base ^ n`, by squaring the base once for each bit of `n`. -/
def powerAcc (acc base : Float) (n : Nat) : Float :=
  let acc := if n % 2 = 1 then acc * base else acc
  if n / 2 = 0 then acc else powerAcc acc (base * base) (n / 2)
termination_by n

/-- `base ^ n` for a whole number `n`. -/
def powerOf (base : Float) (n : Int) : Float :=
  let power := powerAcc 1.0 base n.natAbs
  if n < 0 then 1.0 / power else power

/-- The least and the greatest number of places that are told apart. -/
def leastPlaces : Int := -2147483648

@[inherit_doc leastPlaces]
def greatestPlaces : Int := 2147483647

/-- A number of places, cut off towards zero and brought into range; NaN counts as zero. -/
def places (x : Float) : Int :=
  match toInt? x with
  | some n => max leastPlaces (min n greatestPlaces)
  | none => if x.isNaN then 0 else if isNegative x then leastPlaces else greatestPlaces

/-- Rounds to a number of decimal places, which may be negative. -/
def roundTo (x digits : Float) : Float :=
  let factor := powerOf 10.0 (places digits)
  round (x * factor) / factor

/-- The hypotenuse for two legs `a ≥ b > 0` whose squares neither overflow nor vanish: the root of
the sum of squares, and one step of correction for the rounding of that sum. -/
def hypotenuseOf (a b : Float) : Float :=
  let h := Float.sqrt (a * a + b * b)
  let excess :=
    if h ≤ 2.0 * b then
      let d := h - b
      a * (2.0 * d - a) + (d - 2.0 * (a - b)) * d
    else
      let d := h - a
      2.0 * d * (a - 2.0 * b) + ((4.0 * d - b) * b + d * d)
  h - excess / (2.0 * h)

/-- The square root of `x² + y²`. Legs of extreme size are scaled by a power of two first. An
infinite leg has an infinite hypotenuse, also beside NaN. -/
def hypotenuse (x y : Float) : Float :=
  if x.isInf || y.isInf then infinity false
  else if x.isNaN || y.isNaN then nan
  else
    let a := if x.abs < y.abs then y.abs else x.abs
    let b := if x.abs < y.abs then x.abs else y.abs
    let epsilon := powerOf 2.0 (-54)
    let scale := powerOf 2.0 (-600)
    if b ≤ a * epsilon then a + b
    else if powerOf 2.0 511 < a then hypotenuseOf (a * scale) (b * scale) / scale
    else if b < powerOf 2.0 (-459) then hypotenuseOf (a / scale) (b / scale) * scale
    else hypotenuseOf a b

end SumSheet.Number
