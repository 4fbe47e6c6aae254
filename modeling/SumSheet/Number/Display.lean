/-
SumSheet.Number.Display — the text a value is shown as.

A value is rounded to `significantDigits` digits and shown without
trailing zeros. From `10 ^ leastFixed` up to, but not including,
`10 ^ leastScaled` it is written out in full (`fixed`); beyond, as one
digit, its fraction and a power of ten (`scaled`). Zero has no sign, and
what is not finite is shown by name.
-/
import SumSheet.Number.Decimal

namespace SumSheet.Number

/-- The number of significant digits of every value shown. -/
def significantDigits : Nat := 14

/-- Values of at least `10 ^ leastFixed` are written out in full. -/
def leastFixed : Int := -7

/-- Values of at least `10 ^ leastScaled` are written with a power of ten. -/
def leastScaled : Int := 21

/-- Without trailing zeros. -/
def dropTrailingZeros (digits : List Char) : List Char :=
  (digits.reverse.dropWhile (· == '0')).reverse

/-- The significant digits written out in full, the first of them at `10 ^ exponent`. -/
def fixed (digits : List Char) (exponent : Int) : List Char :=
  if exponent < 0 then
    '0' :: '.' :: (List.replicate (-exponent - 1).toNat '0' ++ digits)
  else
    let whole := exponent.toNat + 1
    if digits.length ≤ whole then
      digits ++ List.replicate (whole - digits.length) '0'
    else
      digits.take whole ++ '.' :: digits.drop whole

/-- The significant digits with a point behind the first, and the power of ten. -/
def scaled (digits : List Char) (exponent : Int) : List Char :=
  let power := 'e' :: (if exponent < 0 then '-' else '+') :: wholeText exponent.natAbs
  match digits with
  | [] => power
  | [lead] => lead :: power
  | lead :: rest => lead :: '.' :: (rest ++ power)

/-- The text of a positive decimal. -/
def Decimal.text (d : Decimal) : List Char :=
  let digits := dropTrailingZeros (lastDigits d.count d.digits)
  if leastFixed ≤ d.exponent ∧ d.exponent < leastScaled then fixed digits d.exponent
  else scaled digits d.exponent

/-- The text of a finite value. -/
def Binary.text (b : Binary) : List Char :=
  if b.mantissa = 0 then ['0']
  else
    let body := (significant significantDigits (.ofBinary b)).text
    if b.negative then '-' :: body else body

/-- The text a value is shown as. -/
def display (x : Float) : String :=
  match Binary.ofFloat? x with
  | some b => String.ofList b.text
  | none => if x.isNaN then "NaN" else if isNegative x then "-Infinity" else "Infinity"

end SumSheet.Number
