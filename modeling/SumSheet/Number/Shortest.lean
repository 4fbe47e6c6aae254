/-
SumSheet.Number.Shortest — the shortest decimal that reads back as a
value.

Of the decimals with one, two, … significant digits nearest to a double,
`shortest` is the first from which `ofDecimal` recovers it. Seventeen
digits always do.

`plainText` writes it the way scripts write a number into a string: with
a point, unless the value is so large or so small that it takes a power
of ten.
-/
import SumSheet.Number.Display

namespace SumSheet.Number

/-- The number of significant digits that tell every double from its neighbours. -/
def enoughDigits : Nat := 17

/-- The double that a decimal denotes. -/
def Decimal.toFloat (d : Decimal) : Float :=
  ofDecimal d.digits (d.exponent - d.count + 1)

/-- The first decimal of at least `count` digits, and of at most `count + more`, that reads back
as `x`, the magnitude of which is `v`. -/
def shortestFrom (x : Float) (v : Quotient) : (more count : Nat) → Decimal
  | 0, count => significant count v
  | more + 1, count =>
    let d := significant count v
    if d.toFloat == x then d else shortestFrom x v more (count + 1)

/-- The shortest decimal that reads back as a positive value. -/
def shortest (x : Float) (b : Binary) : Decimal :=
  shortestFrom x (.ofBinary b) (enoughDigits - 1) 1

/-- Magnitudes above this one are written with a power of ten. -/
def greatestPlain : Float := 1e13

/-- Magnitudes below this one are written with a power of ten. -/
def leastPlain : Float := 1e-7

/-- A power of ten behind its digits; one that is not negative has no sign. -/
def powerText (digits : List Char) (exponent : Int) : List Char :=
  let power := 'e' :: ((if exponent < 0 then ['-'] else []) ++ wholeText exponent.natAbs)
  match digits with
  | [] => power
  | [lead] => lead :: power
  | lead :: rest => lead :: '.' :: (rest ++ power)

/-- The text of a positive value. -/
def magnitudeText (x : Float) (b : Binary) : List Char :=
  let d := shortest x b
  let digits := dropTrailingZeros (lastDigits d.count d.digits)
  if greatestPlain < x || x < leastPlain then powerText digits d.exponent
  else
    let text := fixed digits d.exponent
    if text.contains '.' then text else text ++ ['.', '0']

/-- The text of a number as a part of a string. -/
def plainText (x : Float) : String :=
  match Binary.ofFloat? x with
  | some b =>
    if b.mantissa = 0 then "0.0"
    else
      let body := String.ofList (magnitudeText x.abs b)
      if b.negative then "-" ++ body else body
  | none => if x.isNaN then "NaN" else if isNegative x then "-inf" else "inf"

end SumSheet.Number
