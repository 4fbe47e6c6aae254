/-
SumSheet.Number.Whole — doubles and whole numbers.

  §1 Rounding   — `floor`, `ceil`, `truncate` and `round` of a double, as a
                  double. They differ only in the whole number they choose
                  for the magnitude, so one function, `roundWith`, does the
                  rest. The sign of the argument is kept, also by a zero.
  §2 Remainder  — `remainder x y`, the exact remainder of the division that
                  truncates, with the sign of `x`.
  §3 Conversion — the whole number in a double, and a double near a whole
                  number.
-/
import SumSheet.Number.Quotient

namespace SumSheet.Number

/-! ## §1 Rounding -/

/-- The whole number for a magnitude of `whole + rest / unit`, which carries a minus if
`negative`. -/
abbrev WholeChoice := (negative : Bool) → (whole rest unit : Nat) → Nat

/-- Rounds to the whole number that `choose` takes; an infinity, NaN and a whole number stay as
they are. -/
def roundWith (choose : WholeChoice) (x : Float) : Float :=
  match Binary.ofFloat? x with
  | none => x
  | some b =>
    if 0 ≤ b.exponent then x
    else
      let unit := pow2 (-b.exponent).toNat
      ofWhole b.negative (choose b.negative (b.mantissa / unit) (b.mantissa % unit) unit)

/-- Towards zero. -/
def truncate : Float → Float :=
  roundWith fun _ whole _ _ => whole

/-- Towards minus infinity. -/
def floor : Float → Float :=
  roundWith fun negative whole rest _ => if negative && rest != 0 then whole + 1 else whole

/-- Towards plus infinity. -/
def ceil : Float → Float :=
  roundWith fun negative whole rest _ => if !negative && rest != 0 then whole + 1 else whole

/-- To the nearest whole number, a half away from zero. -/
def round : Float → Float :=
  roundWith fun _ whole rest unit => if unit ≤ 2 * rest then whole + 1 else whole

/-! ## §2 Remainder -/

/-- The remainder of two values `m₁ · 2 ^ e₁` and `m₂ · 2 ^ e₂`, both taken as multiples of the
smaller unit. -/
def Binary.remainder (a b : Binary) : Binary :=
  let exponent := min a.exponent b.exponent
  let scaled (c : Binary) := c.mantissa * pow2 (c.exponent - exponent).toNat
  ⟨a.negative, scaled a % scaled b, exponent⟩

/-- The remainder of `x / y` when the quotient is cut off towards zero. It is NaN if `x` is
infinite or `y` is zero, and `x` if `y` is infinite. -/
def remainder (x y : Float) : Float :=
  match Binary.ofFloat? x, Binary.ofFloat? y with
  | some a, some b => if b.mantissa == 0 then nan else (a.remainder b).toFloat
  | some _, none => if y.isNaN then nan else x
  | none, _ => nan

/-! ## §3 Conversion -/

/-- The whole part of a finite double. -/
def toInt? (x : Float) : Option Int :=
  (Binary.ofFloat? x).map fun b =>
    let magnitude : Nat :=
      if 0 ≤ b.exponent then b.mantissa * pow2 b.exponent.toNat
      else b.mantissa / pow2 (-b.exponent).toNat
    if b.negative then -(magnitude : Int) else magnitude

/-- The double nearest to a whole number. -/
def ofInt (n : Int) : Float :=
  let magnitude := Quotient.toFloat ⟨n.natAbs, 1⟩
  if n < 0 then -magnitude else magnitude

end SumSheet.Number
