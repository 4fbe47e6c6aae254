/-
SumSheet.Proofs.SignificantDigits — a value shown with fourteen digits,
read and shown again has the same fourteen digits.

Rounding a value to digits moves it by at most half a digit. Reading the
digits moves it to the nearest double, which is no farther away than the
double it came from. So rounding again ends at the same digits. What has
to be looked at apart is a power of ten, below which the digits are ten
times as fine: there the doubles must be dense enough, and where they
are not, near the least of them, none may lie in between.

  §1 Rounded     — `IsRounded`, the decimals that a value is rounded to.
  §2 Significant — `significant` gives the one such decimal.
  §3 Range       — the decimals of doubles are read as finite doubles.
  §4 Stability   — reading a decimal gives a value that is rounded to it.
-/
import Mathlib
import SumSheet.Proofs.Decimals

namespace SumSheet.Number

/-! ## §1 Rounded -/

/-- The decimal of fourteen digits that a value is rounded to: the nearest of those in its decade,
or the power of ten above it. -/
inductive IsRounded (x : ℚ) : Decimal → Prop
  | within {n : Nat} {e : Int} (hlow : 10 ^ e ≤ x) (hhigh : x < 10 ^ (e + 1))
    (hnear : IsNearest (x * 10 ^ (13 - e)) n) (hdigits : n < 10 ^ 14) : IsRounded x ⟨14, n, e⟩
  | below {e : Int} (hlow : 10 ^ e * (1 - 1 / (2 * 10 ^ 14)) ≤ x) (hhigh : x < 10 ^ e) :
    IsRounded x ⟨14, 10 ^ 13, e⟩

/-- The value that a decimal denotes. -/
def Decimal.value (d : Decimal) : ℚ :=
  d.digits * 10 ^ (d.exponent - d.count + 1)

/-! ## §2 Significant -/

section Scaling

variable {x : ℚ}

theorem ten_zpow_pos (e : Int) : (0 : ℚ) < 10 ^ e := by positivity

theorem scaled_ten_le_iff {y : ℚ} (e : Int) : x ≤ y * 10 ^ e ↔ x * 10 ^ (-e) ≤ y := by
  rw [zpow_neg, mul_inv_le_iff₀ (ten_zpow_pos e)]

theorem ten_zpow_mul (e k : Int) : (10 : ℚ) ^ e * 10 ^ (k - e) = 10 ^ k := by
  rw [← zpow_add₀ (by norm_num), add_sub_cancel]

/-- Scaling by `10 ^ (k - e)` takes `10 ^ e` to `10 ^ k`. -/
theorem le_scaled_iff (e k : Int) (c : ℚ) : 10 ^ k * c ≤ x * 10 ^ (k - e) ↔ 10 ^ e * c ≤ x := by
  rw [← ten_zpow_mul e k, mul_right_comm, mul_le_mul_iff_left₀ (ten_zpow_pos _)]

theorem scaled_lt_iff (e k : Int) : x * 10 ^ (k - e) < 10 ^ k ↔ x < 10 ^ e := by
  rw [← ten_zpow_mul e k, mul_lt_mul_iff_left₀ (ten_zpow_pos _)]

/-- What is rounded up to a power of ten lies in the decade below it. -/
theorem decade_le {e : Int} (h : 10 ^ e * (1 - 1 / (2 * 10 ^ 14)) ≤ x) : 10 ^ (e - 1) ≤ x := by
  refine le_trans ?_ h
  rw [zpow_sub_one₀ (by norm_num)]
  exact mul_le_mul_of_nonneg_left (by norm_num) (ten_zpow_pos e).le

end Scaling

theorem significant_eq (v : Quotient) :
    significant significantDigits v
      = if (v.scale (13 - v.decimalExponent)).nearest < 10 ^ 14 then
          ⟨14, (v.scale (13 - v.decimalExponent)).nearest, v.decimalExponent⟩
        else ⟨14, (v.scale (13 - v.decimalExponent)).nearest / 10, v.decimalExponent + 1⟩ := rfl

theorem isNearest_scaled {v : Quotient} (h : v.IsPositive) (power : Int) :
    IsNearest (v.value * 10 ^ power) (v.scale power).nearest := by
  rw [← Quotient.value_scale]
  exact Quotient.isNearest_nearest (h.scale _).den_pos

theorem isRounded_significant {v : Quotient} (h : v.IsPositive) :
    IsRounded v.value (significant significantDigits v) := by
  obtain ⟨hlow, hhigh⟩ := Quotient.decimalExponent_spec h
  have hnear := isNearest_scaled h (13 - v.decimalExponent)
  rw [significant_eq]
  split
  · rename_i hdigits
    exact .within hlow hhigh hnear hdigits
  · rename_i hdigits
    have hpower : (13 : Int) - v.decimalExponent = 14 - (v.decimalExponent + 1) := by ring
    have hten : v.value * 10 ^ (13 - v.decimalExponent) < ((10 ^ 14 : Nat) : ℚ) := by
      rw [hpower]
      exact_mod_cast (scaled_lt_iff (v.decimalExponent + 1) 14).mpr hhigh
    have hcarry : (v.scale (13 - v.decimalExponent)).nearest = 10 ^ 14 :=
      le_antisymm (hnear.le_of_le hten.le) (not_lt.mp hdigits)
    rw [hcarry] at hnear ⊢
    refine .below ?_ hhigh
    have hnear := (abs_le.mp hnear.near).1
    rw [← le_scaled_iff _ 14, ← hpower]
    push_cast at hnear
    linarith

/-- What is rounded up to a power of ten is nearest to it in the units of the decade below. -/
theorem isNearest_carry {x : ℚ} {e : Int} (hlow : 10 ^ e * (1 - 1 / (2 * 10 ^ 14)) ≤ x)
    (hhigh : x < 10 ^ e) : IsNearest (x * 10 ^ (13 - (e - 1))) (10 ^ 14) := by
  have hlow := (le_scaled_iff e 14 _).mpr hlow
  have hhigh := (scaled_lt_iff e 14).mpr hhigh
  rw [show (13 : Int) - (e - 1) = 14 - e by ring]
  refine ⟨?_, fun _ => by decide⟩
  push_cast
  rw [abs_le]
  constructor <;> linarith

theorem IsRounded.eq_significant {v : Quotient} (hv : v.IsPositive) {d : Decimal}
    (h : IsRounded v.value d) : significant significantDigits v = d := by
  have hspec := Quotient.decimalExponent_spec hv
  cases h with
  | @within n e hlow hhigh hnear hdigits =>
    have hexponent := Quotient.exponent_unique (by norm_num) hspec ⟨hlow, hhigh⟩
    have hn : (v.scale (13 - e)).nearest = n := (isNearest_scaled hv _).unique hnear
    rw [significant_eq, hexponent, hn, if_pos hdigits]
  | @below e hlow hhigh =>
    have hexponent := Quotient.exponent_unique (by norm_num) hspec
      ⟨decade_le hlow, by rwa [sub_add_cancel]⟩
    have hn : (v.scale (13 - (e - 1))).nearest = 10 ^ 14 :=
      (isNearest_scaled hv _).unique (isNearest_carry hlow hhigh)
    rw [significant_eq, hexponent, hn, if_neg (lt_irrefl _), sub_add_cancel]
    rfl

/-! ## §3 Range -/

theorem IsRounded.digits_bounds {x : ℚ} {d : Decimal} (h : IsRounded x d) :
    d.count = 14 ∧ 10 ^ 13 ≤ d.digits ∧ d.digits < 10 ^ 14 := by
  cases h with
  | @within n e hlow hhigh hnear hdigits =>
    have hscaled := (le_scaled_iff (x := x) e 13 1).mpr (by rwa [mul_one])
    rw [mul_one] at hscaled
    exact ⟨rfl, hnear.le_of_ge (by exact_mod_cast hscaled), hdigits⟩
  | @below e hlow hhigh => exact ⟨rfl, le_refl (10 ^ 13), (by decide : 10 ^ 13 < 10 ^ 14)⟩

theorem Binary.IsDouble.value_le {b : Binary} (h : b.IsDouble) :
    b.value ≤ Quotient.greatest := by
  have hmantissa : (b.mantissa : ℚ) + 1 ≤ 2 ^ 53 := by exact_mod_cast h.mantissa_lt
  calc b.value ≤ (2 ^ 53 - 1) * 2 ^ b.exponent := by
        rw [Binary.value]
        gcongr
        linarith
    _ ≤ (2 ^ 53 - 1) * 2 ^ (971 : Int) :=
        mul_le_mul_of_nonneg_left (zpow_le_zpow_right₀ one_le_two h.exponent_le) (by norm_num)

theorem Binary.IsDouble.le_value {b : Binary} (h : b.IsDouble) (hpos : 0 < b.mantissa) :
    (2 : ℚ) ^ (-1074 : Int) ≤ b.value := by
  have hmantissa : (1 : ℚ) ≤ b.mantissa := by exact_mod_cast hpos
  calc (2 : ℚ) ^ (-1074 : Int) ≤ 2 ^ b.exponent :=
        zpow_le_zpow_right₀ one_le_two h.le_exponent
    _ ≤ b.mantissa * 2 ^ b.exponent := le_mul_of_one_le_left (by positivity) hmantissa

theorem greatest_eq : Quotient.greatest = (((2 ^ 53 - 1) * 2 ^ 971 : Nat) : ℚ) := by
  rw [Quotient.greatest, Nat.cast_mul, Nat.cast_pow, Nat.cast_sub (by decide), Nat.cast_pow,
    Nat.cast_ofNat, Nat.cast_one]

/-- The greatest double lies in the last decade, and its digits are cut there. -/
theorem greatest_bounds : 10 ^ 308 ≤ (2 ^ 53 - 1) * 2 ^ 971
    ∧ 2 * ((2 ^ 53 - 1) * 2 ^ 971) < 10 ^ 309
    ∧ 17976931348623 * 10 ^ 295 ≤ (2 ^ 53 - 1) * 2 ^ 971
    ∧ 100 * ((2 ^ 53 - 1) * 2 ^ 971) ≤ 1797693134862316 * 10 ^ 295 := by
  decide +kernel

/-- Only a decade below `10 ^ 309` is reached. -/
theorem exponent_le_of_le {e : Int} (h : 10 ^ e ≤ 2 * Quotient.greatest) : e ≤ 308 := by
  by_contra hlt
  have hpow : (10 : ℚ) ^ (309 : Int) ≤ 10 ^ e := zpow_le_zpow_right₀ (by norm_num) (by omega)
  have hle := hpow.trans h
  rw [greatest_eq] at hle
  exact absurd (by exact_mod_cast hle) (not_le.mpr greatest_bounds.2.1)

theorem pow_le_greatest {e : Int} (h : e ≤ 308) : 10 ^ e ≤ Quotient.greatest := by
  calc (10 : ℚ) ^ e ≤ 10 ^ (308 : Int) := zpow_le_zpow_right₀ (by norm_num) h
    _ ≤ Quotient.greatest := by
        rw [greatest_eq]
        exact_mod_cast greatest_bounds.1

theorem Decimal.value_eq (n : Nat) (e : Int) :
    (⟨14, n, e⟩ : Decimal).value = n * 10 ^ (e - 13) := by
  show (n : ℚ) * 10 ^ (e - (14 : Nat) + 1) = n * 10 ^ (e - 13)
  congr 2
  omega

theorem power_eq (e : Int) : ((10 ^ 13 : Nat) : ℚ) * 10 ^ (e - 13) = 10 ^ e := by
  exact_mod_cast ten_zpow_mul 13 e

theorem Decimal.value_power (e : Int) : (⟨14, 10 ^ 13, e⟩ : Decimal).value = 10 ^ e := by
  rw [value_eq, power_eq]

/-- In the decade of the greatest double, the digits are those of the greatest double at most. -/
theorem digits_le_greatest {x : ℚ} {n : Nat} (hx : x ≤ Quotient.greatest)
    (h : IsNearest (x * 10 ^ (-295 : Int)) n) : n ≤ 17976931348623 := by
  have hscaled : x * 10 ^ (-295 : Int) ≤ 1797693134862316 / 100 := by
    rw [← scaled_ten_le_iff, div_mul_eq_mul_div, le_div_iff₀ (by norm_num), mul_comm]
    refine (mul_le_mul_of_nonneg_left hx (by norm_num)).trans ?_
    rw [greatest_eq]
    exact_mod_cast greatest_bounds.2.2.2
  have hnear := (abs_le.mp h.near).1
  have hn : (n : ℚ) < 17976931348624 := by linarith
  have hn : n < 17976931348624 := by exact_mod_cast hn
  omega

/-- The digits of a double stay in range. -/
theorem IsRounded.value_le {x : ℚ} {d : Decimal} (h : IsRounded x d)
    (hx : x ≤ Quotient.greatest) : d.value ≤ Quotient.greatest := by
  have hpos : 0 < Quotient.greatest := (ten_zpow_pos 0).trans_le (pow_le_greatest (by decide))
  cases h with
  | @within n e hlow hhigh hnear hdigits =>
    have hexponent := exponent_le_of_le (by linarith : (10 : ℚ) ^ e ≤ 2 * Quotient.greatest)
    rw [Decimal.value_eq]
    rcases Int.lt_or_eq_of_le hexponent with hlt | rfl
    · refine le_trans ?_ (pow_le_greatest (by omega : e + 1 ≤ 308))
      rw [← ten_zpow_mul 14 (e + 1), show e + 1 - 14 = e - 13 by ring]
      gcongr
      exact_mod_cast hdigits.le
    · have hn : (n : ℚ) ≤ 17976931348623 := by exact_mod_cast digits_le_greatest hx hnear
      refine (mul_le_mul_of_nonneg_right hn (ten_zpow_pos _).le).trans ?_
      rw [greatest_eq, show (308 : Int) - 13 = (295 : Nat) by rfl, zpow_natCast]
      exact_mod_cast greatest_bounds.2.2.1
  | @below e hlow hhigh =>
    rw [Decimal.value_power]
    refine pow_le_greatest (exponent_le_of_le ?_)
    have hpow := ten_zpow_pos e
    linarith

/-- The least double lies between two powers of ten, and a little above its `20240225330731`-fold
lies another. -/
theorem least_bounds : 10 ^ 323 ≤ 2 ^ 1074 ∧ 2 ^ 1074 < 10 ^ 324
    ∧ 10 ^ 310 * 20240225330731 ≤ 2 ^ 1074 ∧ 2 * 2 ^ 1074 < 10 ^ 310 * 40480450661463
    ∧ 2 ^ 1074 * 199999999999999 ≤ 10 ^ 310 * (20240225330731 * (2 * 10 ^ 14)) := by
  decide +kernel

theorem least_lt : (10 : ℚ) ^ (-324 : Int) < 2 ^ (-1074 : Int) := by
  rw [zpow_neg, zpow_neg, inv_lt_inv₀ (by positivity) (by positivity)]
  exact_mod_cast least_bounds.2.1

theorem least_le : (2 : ℚ) ^ (-1074 : Int) ≤ 10 ^ (-323 : Int) := by
  rw [zpow_neg, zpow_neg, inv_le_inv₀ (by positivity) (by positivity)]
  exact_mod_cast least_bounds.1

theorem lt_exponent_of_lt {x : ℚ} {e : Int} (hx : (2 : ℚ) ^ (-1074 : Int) ≤ x) (h : x < 10 ^ e) :
    -324 < e :=
  (zpow_lt_zpow_iff_right₀ (by norm_num)).mp ((least_lt.trans_le hx).trans h)

theorem IsRounded.exponent_bounds {x : ℚ} {d : Decimal} (h : IsRounded x d)
    (hleast : (2 : ℚ) ^ (-1074 : Int) ≤ x) (hgreatest : x ≤ Quotient.greatest) :
    -324 ≤ d.exponent ∧ d.exponent ≤ 308 := by
  have hpos : 0 < Quotient.greatest := (ten_zpow_pos 0).trans_le (pow_le_greatest (by decide))
  cases h with
  | @within n e hlow hhigh hnear hdigits =>
    have hexponent := exponent_le_of_le (by linarith : (10 : ℚ) ^ e ≤ 2 * Quotient.greatest)
    have hlt := lt_exponent_of_lt hleast hhigh
    exact ⟨by show -324 ≤ e; omega, hexponent⟩
  | @below e hlow hhigh =>
    have hlt := lt_exponent_of_lt hleast hhigh
    refine ⟨hlt.le, exponent_le_of_le ?_⟩
    have hpow := ten_zpow_pos e
    linarith

theorem digitCount_eq {n : Nat} (hlow : 10 ^ 13 ≤ n) (hhigh : n < 10 ^ 14) : digitCount n = 14 := by
  have hlt := lt_pow_digitCount n
  have hle := pow_digitCount_le (n := n) (by omega)
  have hgt : 13 < digitCount n :=
    (Nat.pow_lt_pow_iff_right (by decide)).mp (lt_of_le_of_lt hlow hlt)
  have hlt : digitCount n < 15 :=
    (Nat.pow_lt_pow_iff_right (a := 10) (by decide)).mp (by omega)
  omega

/-- The quotient of a decimal. -/
def Decimal.quotient (d : Decimal) : Quotient :=
  Quotient.scale ⟨d.digits, 1⟩ (d.exponent - d.count + 1)

theorem Decimal.value_quotient (d : Decimal) : d.quotient.value = d.value :=
  value_decimal _ _

/-- The digits of a double are neither too many nor too few for reading. -/
theorem IsRounded.toFloat_eq {x : ℚ} {d : Decimal} (h : IsRounded x d)
    (hleast : (2 : ℚ) ^ (-1074 : Int) ≤ x) (hgreatest : x ≤ Quotient.greatest) :
    d.toFloat = d.quotient.toFloat := by
  obtain ⟨hcount, hlow, hhigh⟩ := h.digits_bounds
  obtain ⟨hleast, hgreatest⟩ := h.exponent_bounds hleast hgreatest
  have hdecade :
      ¬ (d.digits = 0 ∨ d.exponent - d.count + 1 + digitCount d.digits < leastDecade) := by
    rw [digitCount_eq hlow hhigh, hcount, leastDecade]
    omega
  have hdecade' : ¬ greatestDecade < d.exponent - d.count + 1 + digitCount d.digits := by
    rw [digitCount_eq hlow hhigh, hcount, greatestDecade]
    omega
  simp only [Decimal.toFloat, ofDecimal, Decimal.quotient, Bool.or_eq_true, decide_eq_true_eq,
    if_neg hdecade, if_neg hdecade']

/-! ## §4 Stability -/

theorem scaled_sub (y : ℚ) (n : Nat) (e : Int) :
    |y * 10 ^ (13 - e) - n| = |y - n * 10 ^ (e - 13)| * 10 ^ (13 - e) := by
  have hone : (10 : ℚ) ^ (e - 13) * 10 ^ (13 - e) = 1 := by
    rw [← zpow_add₀ (by norm_num), sub_add_sub_cancel, sub_self, zpow_zero]
  rw [← abs_of_pos (ten_zpow_pos (13 - e)), ← abs_mul, abs_of_pos (ten_zpow_pos _), sub_mul,
    mul_assoc, hone, mul_one]

/-- A value that is no farther from the digits than the one they come from has the same digits, if
it does not fall far below a power of ten. -/
theorem IsRounded.of_nearer {x y : ℚ} {d : Decimal} (h : IsRounded x d)
    (hle : |y - d.value| ≤ |x - d.value|)
    (hgap : ∀ e : Int, d.value = 10 ^ e → 10 ^ e ≤ x → x - 10 ^ e ≤ 10 ^ (e - 13) / 2 → y < 10 ^ e →
      10 ^ e * (1 - 1 / (2 * 10 ^ 14)) ≤ y) : IsRounded y d := by
  have hbounds := h.digits_bounds
  cases h with
  | @within n e hlow hhigh hnear hdigits =>
    rw [Decimal.value_eq] at hle
    have hcloser : |y * 10 ^ (13 - e) - n| ≤ |x * 10 ^ (13 - e) - n| := by
      rw [scaled_sub, scaled_sub]
      exact mul_le_mul_of_nonneg_right hle (ten_zpow_pos _).le
    have hnear' : IsNearest (y * 10 ^ (13 - e)) n :=
      ⟨hcloser.trans hnear.near, fun hhalf =>
        hnear.even_of_half (le_antisymm hnear.near (hhalf ▸ hcloser))⟩
    have hnear_le := abs_le.mp hnear'.near
    rcases lt_or_ge y (10 ^ e) with hlt | hge
    · -- the digits can only be those of the power of ten itself
      have hscaled := (scaled_lt_iff e 13).mpr hlt
      have hn : n = 10 ^ 13 := by
        refine le_antisymm ?_ hbounds.2.1
        have hn : (n : ℚ) < ((10 ^ 13 + 1 : Nat) : ℚ) := by
          push_cast
          linarith
        exact Nat.lt_succ_iff.mp (by exact_mod_cast hn)
      subst hn
      refine .below (hgap e (Decimal.value_power e) hlow ?_ hlt) hlt
      have hnear_x := (abs_le.mp hnear.near).2
      have hx : x ≤ ((10 ^ 13 : Nat) + 1 / 2) * 10 ^ (e - 13) := by
        rw [scaled_ten_le_iff, neg_sub]
        linarith
      rw [add_mul, power_eq] at hx
      linarith
    · refine .within hge ?_ hnear' hdigits
      have hn : (n : ℚ) + 1 ≤ 10 ^ 14 := by exact_mod_cast hdigits
      rw [← scaled_lt_iff (e + 1) 14, show (14 : Int) - (e + 1) = 13 - e by ring]
      have hcast : (10 : ℚ) ^ (14 : Int) = 10 ^ 14 := by norm_cast
      linarith
  | @below e hlow hhigh =>
    rw [Decimal.value_power] at hle
    rw [abs_of_neg (by linarith : x - 10 ^ e < 0)] at hle
    have hpow := ten_zpow_pos e
    rcases lt_or_ge y (10 ^ e) with hlt | hge
    · rw [abs_of_neg (by linarith : y - 10 ^ e < 0)] at hle
      exact .below (by linarith) hlt
    · rw [abs_of_nonneg (by linarith : 0 ≤ y - 10 ^ e)] at hle
      refine .within hge ?_ (.of_lt ?_) (by decide)
      · rw [zpow_add_one₀ (by norm_num)]
        linarith
      · rw [scaled_sub, power_eq, abs_of_nonneg (by linarith)]
        have hclose : y - 10 ^ e ≤ 10 ^ e * (1 / (2 * 10 ^ 14)) := by linarith
        have hscaled := mul_le_mul_of_nonneg_right hclose (ten_zpow_pos (13 - e)).le
        rw [mul_right_comm, ten_zpow_mul] at hscaled
        refine hscaled.trans_lt ?_
        norm_num

/-- The nearest number of least units to the one power of ten where doubles lie about as dense as
the digits below it. -/
theorem isNearest_least : IsNearest (10 ^ (-310 : Int) * 2 ^ (1074 : Int)) 20240225330731 := by
  obtain ⟨-, -, hbelow, habove, -⟩ := least_bounds
  rw [zpow_neg]
  have hle : (20240225330731 : ℚ) ≤ (10 ^ (310 : Int))⁻¹ * 2 ^ (1074 : Int) := by
    rw [le_inv_mul_iff₀ (by positivity)]
    exact_mod_cast hbelow
  have hlt : 2 * ((10 ^ (310 : Int))⁻¹ * 2 ^ (1074 : Int)) < (40480450661463 : ℚ) := by
    rw [mul_left_comm, inv_mul_lt_iff₀ (by positivity)]
    exact_mod_cast habove
  refine .of_lt ?_
  rw [Nat.cast_ofNat, abs_lt]
  constructor <;> linarith

theorem least_units_gap :
    (10 : ℚ) ^ (-310 : Int) * (1 - 1 / (2 * 10 ^ 14)) ≤ 20240225330731 * 2 ^ (-1074 : Int) := by
  rw [show (1 : ℚ) - 1 / (2 * 10 ^ 14) = 199999999999999 / (2 * 10 ^ 14) by norm_num, zpow_neg,
    zpow_neg, ← div_eq_mul_inv, le_div_iff₀ (by positivity), mul_assoc,
    inv_mul_le_iff₀ (by positivity), div_mul_eq_mul_div, div_le_iff₀ (by norm_num), mul_comm,
    mul_assoc]
  exact_mod_cast least_bounds.2.2.2.2

/-- Near a power of ten the doubles are dense enough, or there is none at all where it matters. -/
theorem power_gap {v : Quotient} (hv : v.IsPositive) {b : Binary} (hb : b.IsDouble) {e : Int}
    (hvalue : v.value = 10 ^ e) (hlow : 10 ^ e ≤ b.value)
    (hhigh : b.value - 10 ^ e ≤ 10 ^ (e - 13) / 2)
    (hlt : v.units * (2 : ℚ) ^ v.unitExponent < 10 ^ e) :
    10 ^ e * (1 - 1 / (2 * 10 ^ 14)) ≤ v.units * (2 : ℚ) ^ v.unitExponent := by
  have herror := Quotient.abs_error_le hv
  have hcloser := Quotient.abs_error_le_abs_sub hv hb
  rw [hvalue, abs_of_neg (by linarith), neg_sub] at herror hcloser
  rw [abs_of_nonneg (by linarith)] at hcloser
  have hpow := ten_zpow_pos e
  by_cases hunit : v.unitExponent = -1074
  · rw [hunit] at herror hcloser hlt ⊢
    rcases lt_or_ge e (-309) with hsmall | hlarge
    · have hbelow : v.units * (2 : ℚ) ^ (-1074 : Int) + 2 ^ (-1074 : Int) ≤ b.value := by
        have hlt := hlt.trans_le hlow
        rw [Quotient.value_eq_units b hb.le_exponent] at hlt ⊢
        have hunits := lt_of_mul_lt_mul_right hlt (by positivity)
        rw [← add_one_mul]
        exact mul_le_mul_of_nonneg_right (by exact_mod_cast hunits) (by positivity)
      have hexponent : -324 < e - 13 := by
        have hleast : (2 : ℚ) ^ (-1074 : Int) ≤ 10 ^ (e - 13) := by linarith
        exact (zpow_lt_zpow_iff_right₀ (by norm_num)).mp (least_lt.trans_le hleast)
      obtain rfl : e = -310 := by omega
      have hnear := Quotient.isNearest_units hv
      rw [hvalue, hunit, neg_neg] at hnear
      rw [hnear.unique isNearest_least]
      exact least_units_gap
    · -- half of the least unit is less than half a digit below
      have hleast : (2 : ℚ) ^ (-1074 : Int) ≤ 10 ^ (e - 14) :=
        least_le.trans (zpow_le_zpow_right₀ (by norm_num) (by omega))
      rw [zpow_sub₀ (by norm_num)] at hleast
      have hcast : (10 : ℚ) ^ (14 : Int) = 10 ^ 14 := by norm_cast
      rw [hcast] at hleast
      linarith
  · have hfull := Quotient.le_value_units hv hunit
    rw [hvalue] at hfull
    linarith

theorem IsRounded.pos {x : ℚ} {d : Decimal} (h : IsRounded x d) : 0 < x := by
  cases h with
  | @within n e hlow hhigh hnear hdigits => exact (ten_zpow_pos e).trans_le hlow
  | @below e hlow hhigh =>
    have hpow := ten_zpow_pos e
    linarith

/-- The fourteen digits of a double, read as a double, are again its fourteen digits. -/
theorem significant_reread {b : Binary} (hb : b.IsDouble) (hpos : 0 < b.mantissa) :
    ∃ c, Binary.ofFloat? (significant significantDigits (.ofBinary b)).toFloat = some c
      ∧ c.negative = false ∧ 0 < c.mantissa
      ∧ significant significantDigits (.ofBinary c)
        = significant significantDigits (.ofBinary b) := by
  have hrounded := isRounded_significant (Quotient.isPositive_ofBinary hpos)
  rw [Quotient.value_ofBinary] at hrounded
  generalize significant significantDigits (.ofBinary b) = d at hrounded ⊢
  have hquotient : d.quotient.IsPositive :=
    isPositive_decimal (lt_of_lt_of_le (by decide) hrounded.digits_bounds.2.1) _
  have hgreatest : d.quotient.value ≤ Quotient.greatest := by
    rw [Decimal.value_quotient]
    exact hrounded.value_le hb.value_le
  obtain ⟨c, hc, hsign, hvalue⟩ := Quotient.ofFloat?_toFloat hquotient
    (hgreatest.trans_lt Quotient.greatest_lt_overflow)
  have hreread : IsRounded c.value d := by
    refine hrounded.of_nearer ?_ ?_
    · rw [hvalue, ← Decimal.value_quotient]
      exact Quotient.abs_error_le_abs_sub hquotient hb
    · intro e hpower hlow hhigh hlt
      rw [hvalue] at hlt ⊢
      exact power_gap hquotient hb (by rw [Decimal.value_quotient, hpower]) hlow hhigh hlt
  have hmantissa : 0 < c.mantissa := by
    refine Nat.pos_of_ne_zero fun hzero => hreread.pos.ne' ?_
    rw [Binary.value, hzero, Nat.cast_zero, zero_mul]
  refine ⟨c, ?_, hsign, hmantissa, ?_⟩
  · rw [hrounded.toFloat_eq (hb.le_value hpos) hb.value_le]
    exact hc
  · rw [← Quotient.value_ofBinary] at hreread
    exact hreread.eq_significant (Quotient.isPositive_ofBinary hmantissa)

end SumSheet.Number
