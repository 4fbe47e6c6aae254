/-
SumSheet.Proofs.Rounding — what rounding a quotient gives depends on its
value alone, and is nearest to it.

  §1 Values        — the rational number that a quotient stands for.
  §2 Whole numbers — `IsNearest`: half to even, and one number only.
  §3 Exponents     — the powers of two around a value, and the gap
                     between the doubles there.
  §4 Doubles       — `Quotient.toFloat` takes equal values to one double,
                     and no double is nearer to the value than that one.
-/
import Mathlib
import SumSheet.Proofs.FloatBits

namespace SumSheet.Number

/-! ## §1 Values -/

namespace Quotient

/-- The rational number. -/
def value (v : Quotient) : ℚ :=
  v.num / v.den

/-- The value is positive. -/
structure IsPositive (v : Quotient) : Prop where
  num_pos : 0 < v.num
  den_pos : 0 < v.den

theorem pow_toNat_div (base : ℚ) (power : Int) :
    base ^ power.toNat / base ^ (-power).toNat = base ^ power := by
  rcases le_total 0 power with hp | hp
  · rw [Int.toNat_of_nonpos (by omega : -power ≤ 0), pow_zero, div_one, ← zpow_natCast,
      Int.toNat_of_nonneg hp]
  · rw [Int.toNat_of_nonpos hp, pow_zero, ← zpow_natCast, Int.toNat_of_nonneg (by omega), zpow_neg,
      one_div, inv_inv]

theorem value_shift (v : Quotient) (power : Int) :
    (v.shift power).value = v.value * (2 : ℚ) ^ power := by
  simp only [value, shift, pow2_eq]
  push_cast
  rw [mul_div_mul_comm, pow_toNat_div]

theorem IsPositive.shift {v : Quotient} (h : v.IsPositive) (power : Int) :
    (v.shift power).IsPositive :=
  ⟨Nat.mul_pos h.num_pos (Nat.two_pow_pos _), Nat.mul_pos h.den_pos (Nat.two_pow_pos _)⟩

theorem value_ofBinary (b : Binary) : (ofBinary b).value = b.value := by
  simp only [value, ofBinary, Binary.value, pow2_eq]
  push_cast
  rw [mul_div_assoc, pow_toNat_div]

theorem isPositive_ofBinary {b : Binary} (h : 0 < b.mantissa) : (ofBinary b).IsPositive :=
  ⟨Nat.mul_pos h (Nat.two_pow_pos _), Nat.two_pow_pos _⟩

end Quotient

/-! ## §2 Whole numbers -/

/-- The whole number is nearest to the value, and even if there is another one as near. -/
structure IsNearest (x : ℚ) (n : Nat) : Prop where
  near : |x - n| ≤ 1 / 2
  even_of_half : |x - n| = 1 / 2 → n % 2 = 0

namespace IsNearest

variable {x : ℚ} {n : Nat}

theorem of_lt (h : |x - n| < 1 / 2) : IsNearest x n :=
  ⟨h.le, fun heq => absurd heq h.ne⟩

/-- No other whole number is nearer. -/
theorem le_abs_sub (h : IsNearest x n) (m : Nat) : |x - n| ≤ |x - m| := by
  rcases eq_or_ne n m with rfl | hne
  · exact le_refl _
  · have hgap : (1 : ℚ) ≤ |(n : ℚ) - m| := by
      have hint : (1 : Int) ≤ |(n : Int) - m| :=
        Int.one_le_abs (sub_ne_zero.mpr (by exact_mod_cast hne))
      exact_mod_cast hint
    have htri := abs_sub_le (n : ℚ) x m
    rw [abs_sub_comm (n : ℚ) x] at htri
    linarith [h.near]

/-- Another whole number that is as near is a neighbour, and therefore odd. -/
theorem tie (h : IsNearest x n) {m : Nat} (hne : m ≠ n) (htie : |x - m| = |x - n|) :
    |x - m| = 1 / 2 ∧ m % 2 = 1 := by
  have hnear := abs_le.mp h.near
  have hx : x = (m + n) / 2 := by
    rcases abs_eq_abs.mp htie with heq | heq
    · exact absurd (by exact_mod_cast (by linarith : (m : ℚ) = n)) hne
    · linarith
  have hup : (m : ℚ) ≤ n + 1 := by linarith
  have hdown : (n : ℚ) ≤ m + 1 := by linarith
  norm_cast at hup hdown
  have hhalf : |x - m| = 1 / 2 := by
    rcases Nat.lt_or_gt_of_ne hne with hlt | hgt
    · have hcast : (n : ℚ) = m + 1 := by exact_mod_cast (by omega : n = m + 1)
      rw [show x - m = 1 / 2 by linarith]
      norm_num
    · have hcast : (m : ℚ) = n + 1 := by exact_mod_cast (by omega : m = n + 1)
      rw [show x - m = -(1 / 2) by linarith]
      norm_num
  have heven := h.even_of_half (htie.symm.trans hhalf)
  exact ⟨hhalf, by omega⟩

/-- Two whole numbers that are both nearest would be neighbours, and both even. -/
theorem unique {m : Nat} (hn : IsNearest x n) (hm : IsNearest x m) : n = m := by
  by_contra hne
  have htie : |x - m| = |x - n| := le_antisymm (hm.le_abs_sub n) (hn.le_abs_sub m)
  obtain ⟨hhalf, hodd⟩ := hn.tie (Ne.symm hne) htie
  have heven := hm.even_of_half hhalf
  omega

theorem le_of_le (h : IsNearest x n) {m : Nat} (hm : x ≤ m) : n ≤ m := by
  by_contra hlt
  have hcast : (m : ℚ) + 1 ≤ n := by exact_mod_cast (by omega : m + 1 ≤ n)
  have hle := abs_le.mp h.near
  linarith

theorem le_of_ge (h : IsNearest x n) {m : Nat} (hm : m ≤ x) : m ≤ n := by
  by_contra hlt
  have hcast : (n : ℚ) + 1 ≤ m := by exact_mod_cast (by omega : n + 1 ≤ m)
  have hle := abs_le.mp h.near
  linarith

end IsNearest

/-- A fraction is its whole part and what the remainder adds to it. -/
theorem natCast_div_eq (n : Nat) {d : Nat} (hd : 0 < d) :
    (n : ℚ) / d = (n / d : Nat) + ((n % d : Nat) : ℚ) / d := by
  have hden : (0 : ℚ) < d := by exact_mod_cast hd
  rw [eq_comm, ← mul_div_cancel_right₀ ((n / d : Nat) : ℚ) hden.ne', ← add_div]
  congr 1
  exact_mod_cast Nat.div_add_mod' n d

namespace Quotient

theorem isNearest_nearest {v : Quotient} (h : 0 < v.den) : IsNearest v.value v.nearest := by
  have hden : (0 : ℚ) < v.den := by exact_mod_cast h
  have hrest := Nat.mod_lt v.num h
  rw [value, natCast_div_eq v.num h]
  simp only [nearest]
  generalize v.num / v.den = whole
  generalize v.num % v.den = rest at hrest ⊢
  split
  · rename_i hlow
    have hhalf : (rest : ℚ) / v.den < 1 / 2 := by
      rw [div_lt_div_iff₀ hden two_pos]
      exact_mod_cast (by omega : rest * 2 < 1 * v.den)
    refine .of_lt ?_
    rw [add_sub_cancel_left, abs_of_nonneg (by positivity)]
    exact hhalf
  · split
    · rename_i hhigh
      have hhalf : 1 / 2 < (rest : ℚ) / v.den := by
        rw [div_lt_div_iff₀ two_pos hden]
        exact_mod_cast (by omega : 1 * v.den < rest * 2)
      have hone : (rest : ℚ) / v.den < 1 := by
        rw [div_lt_one hden]
        exact_mod_cast hrest
      refine .of_lt ?_
      push_cast
      rw [abs_lt]
      constructor <;> linarith
    · have hhalf : (rest : ℚ) / v.den = 1 / 2 := by
        rw [div_eq_div_iff hden.ne' two_ne_zero]
        exact_mod_cast (by omega : rest * 2 = 1 * v.den)
      rw [hhalf]
      refine ⟨?_, fun _ => by omega⟩
      rcases Nat.mod_two_eq_zero_or_one whole with heven | hodd
      · rw [heven]
        norm_num
      · rw [hodd]
        norm_num

/-! ## §3 Exponents -/

theorem value_lt_one_iff {v : Quotient} (h : 0 < v.den) : v.value < 1 ↔ v.num < v.den := by
  rw [value, div_lt_one (by exact_mod_cast h)]
  exact_mod_cast Iff.rfl

/-- The powers of two around a value. -/
theorem binaryExponent_spec {v : Quotient} (h : v.IsPositive) :
    (2 : ℚ) ^ v.binaryExponent ≤ v.value ∧ v.value < (2 : ℚ) ^ (v.binaryExponent + 1) := by
  have hnum : (2 : ℚ) ^ (v.num.log2 : Int) ≤ v.num := by
    rw [zpow_natCast]
    exact_mod_cast Nat.log2_self_le h.num_pos.ne'
  have hnum' : (v.num : ℚ) < (2 : ℚ) ^ ((v.num.log2 : Int) + 1) := by
    exact_mod_cast Nat.lt_log2_self (n := v.num)
  have hden : (2 : ℚ) ^ (v.den.log2 : Int) ≤ v.den := by
    rw [zpow_natCast]
    exact_mod_cast Nat.log2_self_le h.den_pos.ne'
  have hden' : (v.den : ℚ) < (2 : ℚ) ^ ((v.den.log2 : Int) + 1) := by
    exact_mod_cast Nat.lt_log2_self (n := v.den)
  have hpos : (0 : ℚ) < v.den := by exact_mod_cast h.den_pos
  have hbelow : (2 : ℚ) ^ ((v.num.log2 : Int) - v.den.log2 - 1) ≤ v.value := by
    rw [value, le_div_iff₀ hpos]
    calc (2 : ℚ) ^ ((v.num.log2 : Int) - v.den.log2 - 1) * v.den
        ≤ 2 ^ ((v.num.log2 : Int) - v.den.log2 - 1) * 2 ^ ((v.den.log2 : Int) + 1) := by
          gcongr
      _ = 2 ^ (v.num.log2 : Int) := by
          rw [← zpow_add₀ two_ne_zero]
          congr 1
          omega
      _ ≤ v.num := hnum
  have habove : v.value < (2 : ℚ) ^ ((v.num.log2 : Int) - v.den.log2 + 1) := by
    rw [value, div_lt_iff₀ hpos]
    calc (v.num : ℚ) < 2 ^ ((v.num.log2 : Int) + 1) := hnum'
      _ = 2 ^ ((v.num.log2 : Int) - v.den.log2 + 1) * 2 ^ (v.den.log2 : Int) := by
          rw [← zpow_add₀ two_ne_zero]
          congr 1
          omega
      _ ≤ 2 ^ ((v.num.log2 : Int) - v.den.log2 + 1) * v.den := by
          gcongr
  have hsplit (e : Int) : (v.shift (-e)).num < (v.shift (-e)).den ↔ v.value < (2 : ℚ) ^ e := by
    rw [← value_lt_one_iff (h.shift _).den_pos, value_shift, zpow_neg, ← div_eq_mul_inv,
      div_lt_one (by positivity)]
  simp only [binaryExponent, hsplit]
  split
  · rename_i hlow
    rw [sub_add_cancel]
    exact ⟨hbelow, hlow⟩
  · rename_i hhigh
    exact ⟨not_lt.mp hhigh, habove⟩

/-- A value lies between two neighbouring powers only once. -/
theorem exponent_unique {base x : ℚ} (hbase : 1 < base) {e f : Int}
    (he : base ^ e ≤ x ∧ x < base ^ (e + 1)) (hf : base ^ f ≤ x ∧ x < base ^ (f + 1)) : e = f := by
  have hlt := (zpow_lt_zpow_iff_right₀ hbase).mp (lt_of_le_of_lt he.1 hf.2)
  have hlt' := (zpow_lt_zpow_iff_right₀ hbase).mp (lt_of_le_of_lt hf.1 he.2)
  omega

/-! ## §4 Doubles -/

theorem unitExponent_congr {v w : Quotient} (hv : v.IsPositive) (hw : w.IsPositive)
    (h : v.value = w.value) : v.unitExponent = w.unitExponent := by
  have hspec := binaryExponent_spec hw
  rw [← h] at hspec
  rw [unitExponent, unitExponent,
    exponent_unique one_lt_two (binaryExponent_spec hv) hspec]

/-- The number of units that is nearest to the value. -/
def units (v : Quotient) : Nat :=
  (v.shift (-v.unitExponent)).nearest

theorem isNearest_units {v : Quotient} (h : v.IsPositive) :
    IsNearest (v.value * (2 : ℚ) ^ (-v.unitExponent)) v.units := by
  rw [← value_shift]
  exact isNearest_nearest (h.shift _).den_pos

theorem nearestBits_eq (v : Quotient) :
    v.nearestBits = min infinityBits ((v.unitExponent + 1074).toNat * 2 ^ 52 + v.units) := by
  simp only [nearestBits, units, leastExponent, fractionBits, pow2_eq, Int.reduceNeg,
    sub_neg_eq_add]

theorem toFloat_eq {v : Quotient} (h : v.IsPositive) :
    v.toFloat = Float.ofBits (UInt64.ofNat v.nearestBits) :=
  if_neg h.num_pos.ne'

/-- Equal values are rounded to the same double. -/
theorem toFloat_congr {v w : Quotient} (hv : v.IsPositive) (hw : w.IsPositive)
    (h : v.value = w.value) : v.toFloat = w.toFloat := by
  have hunit := unitExponent_congr hv hw h
  have hunits : v.units = w.units := by
    have hnear := isNearest_units hw
    rw [← h, ← hunit] at hnear
    exact (isNearest_units hv).unique hnear
  rw [toFloat_eq hv, toFloat_eq hw, nearestBits_eq, nearestBits_eq, hunit, hunits]

theorem le_unitExponent (v : Quotient) : -1074 ≤ v.unitExponent :=
  le_max_left _ _

theorem binaryExponent_le (v : Quotient) : v.binaryExponent ≤ v.unitExponent + 52 := by
  have hle : v.binaryExponent - fractionBits ≤ v.unitExponent := le_max_right _ _
  rw [fractionBits] at hle
  omega

/-- A value has at least `2 ^ 52` of its units, unless they are the least ones. -/
theorem le_value_units {v : Quotient} (h : v.IsPositive) (hleast : v.unitExponent ≠ -1074) :
    (2 : ℚ) ^ 52 * 2 ^ v.unitExponent ≤ v.value := by
  have hunit : v.unitExponent = v.binaryExponent - 52 := by
    rcases max_choice leastExponent (v.binaryExponent - fractionBits) with hmax | hmax
    · exact absurd hmax hleast
    · exact hmax
  have hspec := (binaryExponent_spec h).1
  rw [hunit, ← zpow_natCast, ← zpow_add₀ two_ne_zero, show ((52 : Nat) : Int)
    + (v.binaryExponent - 52) = v.binaryExponent by omega]
  exact hspec

theorem value_units_lt {v : Quotient} (h : v.IsPositive) :
    v.value < (2 : ℚ) ^ 53 * 2 ^ v.unitExponent := by
  have hle := binaryExponent_le v
  calc v.value < (2 : ℚ) ^ (v.binaryExponent + 1) := (binaryExponent_spec h).2
    _ ≤ 2 ^ ((53 : Nat) + v.unitExponent) :=
      zpow_le_zpow_right₀ one_le_two (by push_cast; omega)
    _ = 2 ^ 53 * 2 ^ v.unitExponent := by rw [zpow_add₀ two_ne_zero, zpow_natCast]

theorem scaled_le_iff {x y : ℚ} (e : Int) : x * (2 : ℚ) ^ (-e) ≤ y ↔ x ≤ y * 2 ^ e := by
  rw [zpow_neg, ← div_eq_mul_inv, div_le_iff₀ (by positivity)]

theorem le_scaled_iff {x y : ℚ} (e : Int) : y ≤ x * (2 : ℚ) ^ (-e) ↔ y * 2 ^ e ≤ x := by
  rw [zpow_neg, ← div_eq_mul_inv, le_div_iff₀ (by positivity)]

theorem units_le {v : Quotient} (h : v.IsPositive) {n : Nat}
    (hn : v.value ≤ n * (2 : ℚ) ^ v.unitExponent) : v.units ≤ n :=
  (isNearest_units h).le_of_le ((scaled_le_iff _).mpr hn)

theorem le_units {v : Quotient} (h : v.IsPositive) {n : Nat}
    (hn : n * (2 : ℚ) ^ v.unitExponent ≤ v.value) : n ≤ v.units :=
  (isNearest_units h).le_of_ge ((le_scaled_iff _).mpr hn)

/-- The greatest double. -/
def greatest : ℚ := (2 ^ 53 - 1) * 2 ^ 971

/-- Half a unit above the greatest double. Whatever is as large is rounded to infinity. -/
def overflow : ℚ := (2 ^ 53 - 1 / 2) * 2 ^ 971

theorem greatest_lt_overflow : greatest < overflow := by
  rw [greatest, overflow]
  gcongr
  norm_num

theorem scaled_overflow : overflow * (2 : ℚ) ^ (-971 : Int) = 2 ^ 53 - 1 / 2 := by
  rw [overflow, zpow_neg, show (971 : Int) = (971 : Nat) from rfl, zpow_natCast,
    mul_inv_cancel_right₀ (by positivity)]

theorem overflow_lt : overflow < (2 : ℚ) ^ (1024 : Int) := by
  calc overflow < 2 ^ 53 * 2 ^ 971 := by
        rw [overflow]
        gcongr
        norm_num
    _ = 2 ^ (1024 : Int) := by rw [← pow_add]; rfl

theorem le_overflow : (2 : ℚ) ^ (1023 : Int) ≤ overflow := by
  calc (2 : ℚ) ^ (1023 : Int) = 2 ^ 52 * 2 ^ 971 := by rw [← pow_add]; rfl
    _ ≤ overflow := by
        rw [overflow]
        gcongr
        norm_num

theorem unitExponent_le {v : Quotient} (h : v.IsPositive) (hv : v.value < overflow) :
    v.unitExponent ≤ 971 := by
  have hlt : (2 : ℚ) ^ v.binaryExponent < 2 ^ (1024 : Int) :=
    (binaryExponent_spec h).1.trans_lt (hv.trans overflow_lt)
  have hexponent := (zpow_lt_zpow_iff_right₀ one_lt_two).mp hlt
  rw [unitExponent, leastExponent, fractionBits]
  omega

theorem nearestBits_lt {v : Quotient} (h : v.IsPositive) (hv : v.value < overflow) :
    (v.unitExponent + 1074).toNat * 2 ^ 52 + v.units < infinityBits := by
  have hunit := unitExponent_le h hv
  have hleast := le_unitExponent v
  rw [infinityBits]
  rcases Int.lt_or_eq_of_le hunit with hlt | heq
  · have hunits : v.units ≤ 2 ^ 53 := units_le h (by exact_mod_cast (value_units_lt h).le)
    omega
  · have hscaled : v.value * (2 : ℚ) ^ (-v.unitExponent) < 2 ^ 53 - 1 / 2 := by
      rw [heq, ← scaled_overflow]
      gcongr
    have hnear := (abs_le.mp (isNearest_units h).near).1
    have hunits : v.units < 2 ^ 53 := by
      have hlt : (v.units : ℚ) < ((2 ^ 53 : Nat) : ℚ) := by
        push_cast
        linarith
      exact_mod_cast hlt
    rw [heq]
    omega

/-- The even one of the two numbers of units around `overflow` is the one that is infinite. -/
theorem nearestBits_of_overflow {v : Quotient} (h : v.IsPositive) (hv : overflow ≤ v.value) :
    v.nearestBits = infinityBits := by
  have hunit : 971 ≤ v.unitExponent := by
    have hle := binaryExponent_le v
    have hlt : (2 : ℚ) ^ (1023 : Int) < 2 ^ (v.binaryExponent + 1) :=
      (le_overflow.trans hv).trans_lt (binaryExponent_spec h).2
    have hexponent := (zpow_lt_zpow_iff_right₀ one_lt_two).mp hlt
    omega
  rw [nearestBits_eq, min_eq_left]
  rw [infinityBits]
  rcases Int.lt_or_eq_of_le hunit with hlt | heq
  · have hunits : 2 ^ 52 ≤ v.units :=
      le_units h (by exact_mod_cast le_value_units h (by omega))
    omega
  · have hscaled : 2 ^ 53 - 1 / 2 ≤ v.value * (2 : ℚ) ^ (-v.unitExponent) := by
      rw [← heq, ← scaled_overflow]
      gcongr
    have hnearest := isNearest_units h
    have hnear := (abs_le.mp hnearest.near).2
    have hunits : 2 ^ 53 ≤ v.units := by
      by_contra hlt
      have hle : (v.units : ℚ) + 1 ≤ 2 ^ 53 := by exact_mod_cast (by omega : v.units + 1 ≤ 2 ^ 53)
      have hhalf : v.value * (2 : ℚ) ^ (-v.unitExponent) - v.units = 1 / 2 := by linarith
      have heven := hnearest.even_of_half (by rw [hhalf]; norm_num)
      have hodd : (v.units : ℚ) + 1 = 2 ^ 53 := by linarith
      have hodd : v.units + 1 = 2 ^ 53 := by exact_mod_cast hodd
      omega
    rw [← heq]
    omega

/-- The nearest double is the nearest number of units. -/
theorem ofFloat?_toFloat {v : Quotient} (h : v.IsPositive) (hv : v.value < overflow) :
    ∃ b, Binary.ofFloat? v.toFloat = some b ∧ b.negative = false
      ∧ b.value = v.units * (2 : ℚ) ^ v.unitExponent := by
  have hbits := nearestBits_lt h hv
  rw [toFloat_eq h, nearestBits_eq, min_eq_right hbits.le]
  refine Binary.ofFloat?_units (le_unitExponent v)
    (units_le h (by exact_mod_cast (value_units_lt h).le)) ?_ hbits
  by_cases hleast : v.unitExponent = -1074
  · exact .inl hleast
  · exact .inr (le_units h (by exact_mod_cast le_value_units h hleast))

theorem abs_units_sub (v : Quotient) (n : Nat) :
    |(n : ℚ) * 2 ^ v.unitExponent - v.value|
      = |v.value * (2 : ℚ) ^ (-v.unitExponent) - n| * 2 ^ v.unitExponent := by
  have hpos : (0 : ℚ) < 2 ^ v.unitExponent := by positivity
  rw [← abs_of_pos hpos, ← abs_mul, abs_of_pos hpos, sub_mul, mul_assoc, zpow_neg,
    inv_mul_cancel₀ hpos.ne', mul_one, abs_sub_comm]

/-- The error of rounding is at most half a unit. -/
theorem abs_error_le {v : Quotient} (h : v.IsPositive) :
    |(v.units : ℚ) * 2 ^ v.unitExponent - v.value| ≤ 1 / 2 * 2 ^ v.unitExponent := by
  rw [abs_units_sub]
  gcongr
  exact (isNearest_units h).near

/-- A value with a coarser unit is itself a number of units. -/
theorem value_eq_units (c : Binary) {e : Int} (h : e ≤ c.exponent) :
    c.value = ((c.mantissa * 2 ^ (c.exponent - e).toNat : Nat) : ℚ) * 2 ^ e := by
  rw [Binary.value]
  push_cast
  rw [mul_assoc, ← zpow_natCast, ← zpow_add₀ two_ne_zero, Int.toNat_of_nonneg (by omega),
    sub_add_cancel]

/-- A double is a number of units, or it has a finer unit. Then it lies below the value, and below
`2 ^ 52` units too. -/
theorem units_or_below {v : Quotient} (h : v.IsPositive) {c : Binary} (hc : c.IsDouble) :
    (∃ n : Nat, c.value = (n : ℚ) * 2 ^ v.unitExponent)
      ∨ c.value < ((2 ^ 52 : Nat) : ℚ) * 2 ^ v.unitExponent
        ∧ ((2 ^ 52 : Nat) : ℚ) * 2 ^ v.unitExponent ≤ v.value := by
  rcases le_or_gt v.unitExponent c.exponent with hle | hlt
  · exact .inl ⟨_, value_eq_units c hle⟩
  refine .inr ⟨?_, by exact_mod_cast le_value_units h (by have := hc.le_exponent; omega)⟩
  have hmantissa : (c.mantissa : ℚ) < 2 ^ 53 := by exact_mod_cast hc.mantissa_lt
  calc c.value < 2 ^ 53 * 2 ^ c.exponent := by
        rw [Binary.value]
        gcongr
    _ ≤ 2 ^ 53 * 2 ^ (v.unitExponent - 1) := by
        gcongr
        · exact one_le_two
        · omega
    _ = ((2 ^ 52 : Nat) : ℚ) * 2 ^ v.unitExponent := by
        rw [zpow_sub_one₀ two_ne_zero]
        push_cast
        ring

theorem abs_error_le_units {v : Quotient} (h : v.IsPositive) (n : Nat) :
    |(v.units : ℚ) * 2 ^ v.unitExponent - v.value| ≤ |(n : ℚ) * 2 ^ v.unitExponent - v.value| := by
  rw [abs_units_sub, abs_units_sub]
  exact mul_le_mul_of_nonneg_right ((isNearest_units h).le_abs_sub n) (by positivity)

/-- A double with a finer unit is farther away. -/
theorem abs_error_lt_below {v : Quotient} (h : v.IsPositive) {x : ℚ}
    (hbelow : x < ((2 ^ 52 : Nat) : ℚ) * 2 ^ v.unitExponent)
    (habove : ((2 ^ 52 : Nat) : ℚ) * 2 ^ v.unitExponent ≤ v.value) :
    |(v.units : ℚ) * 2 ^ v.unitExponent - v.value| < |x - v.value| := by
  refine (abs_error_le_units h (2 ^ 52)).trans_lt ?_
  rw [abs_sub_comm, abs_of_nonneg (by linarith), abs_sub_comm, abs_of_nonneg (by linarith)]
  linarith

/-- No double is nearer. -/
theorem abs_error_le_abs_sub {v : Quotient} (h : v.IsPositive) {c : Binary} (hc : c.IsDouble) :
    |(v.units : ℚ) * 2 ^ v.unitExponent - v.value| ≤ |c.value - v.value| := by
  rcases units_or_below h hc with ⟨n, hn⟩ | ⟨hbelow, habove⟩
  · rw [hn]
    exact abs_error_le_units h n
  · exact (abs_error_lt_below h hbelow habove).le

/-- A double that is as near is a neighbour, and a half of the unit away. -/
theorem tie_cases {v : Quotient} (h : v.IsPositive) {c : Binary} (hc : c.IsDouble)
    (hne : c.value ≠ v.units * (2 : ℚ) ^ v.unitExponent)
    (htie : |c.value - v.value| = |(v.units : ℚ) * 2 ^ v.unitExponent - v.value|) :
    v.units % 2 = 0 ∧ ∃ n : Nat, c.value = (n : ℚ) * 2 ^ v.unitExponent ∧ n % 2 = 1
      ∧ |v.value * (2 : ℚ) ^ (-v.unitExponent) - n| = 1 / 2 := by
  rcases units_or_below h hc with ⟨n, hn⟩ | ⟨hbelow, habove⟩
  · have hpos : (0 : ℚ) < 2 ^ v.unitExponent := by positivity
    rw [hn, abs_units_sub, abs_units_sub, mul_left_inj' hpos.ne'] at htie
    have hunits : n ≠ v.units := fun heq => hne (by rw [hn, heq])
    obtain ⟨hhalf, hodd⟩ := (isNearest_units h).tie hunits htie
    exact ⟨(isNearest_units h).even_of_half (htie.symm.trans hhalf), n, hn, hodd, hhalf⟩
  · exact absurd htie (abs_error_lt_below h hbelow habove).ne'

end Quotient

end SumSheet.Number
