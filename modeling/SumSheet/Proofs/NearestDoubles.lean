/-
SumSheet.Proofs.NearestDoubles — a decimal is read as the double nearest
to it.

Which double that is can be said without any computation: no other one is
nearer, and of two that are as near it is the one with an even last bit.
From half a unit above the greatest double on there is none, and the
number is read as infinity. `IsNearestDouble` says so, and says enough:
no number has two nearest doubles (`isNearestDouble_ofDecimal_iff`).

`ofDecimal` settles values out of range by the number of their digits,
before it computes anything. These are far enough from the least double
and from the greatest one.

  §1 Bits     — a double from zero upwards is its mantissa and exponent.
  §2 Nearest  — the double that a quotient is rounded to.
  §3 Unique   — there is no other.
  §4 Decimals — in range and out of range.
-/
import Mathlib
import SumSheet.Proofs.CanonicalDisplay

namespace SumSheet.Number

/-! ## §1 Bits -/

theorem toBits_injective : Function.Injective Float.toBits := by
  rintro ⟨⟨x, hx⟩⟩ ⟨⟨y, hy⟩⟩ h
  cases (show x = y from h)
  rfl

namespace Binary

/-- The mantissa fills its bits, unless the exponent is the least. -/
structure IsNormal (b : Binary) : Prop extends IsDouble b where
  full : b.exponent = -1074 ∨ 2 ^ 52 ≤ b.mantissa

/-- The parts of a double that is not negative, and its bits. -/
theorem bits_of_ofFloat? {x : Float} {b : Binary} (h : ofFloat? x = some b)
    (hsign : isNegative x = false) :
    b.negative = false ∧ b.IsNormal
      ∧ x.toBits.toNat = (b.exponent + 1074).toNat * 2 ^ 52 + b.mantissa := by
  have hdouble := isDouble_of_ofFloat? h
  rw [ofFloat?_eq, ofBits?] at h
  rw [isNegative, pow2_eq] at hsign
  have hbits := x.toBits.toBitVec.isLt
  rw [UInt64.toNat_toBitVec] at hbits
  have hlow : x.toBits.toNat < 2 ^ 63 := by
    rw [beq_eq_false_iff_ne] at hsign
    omega
  split at h
  · cases h
  split at h
  · cases h
    exact ⟨hsign, ⟨hdouble, .inl rfl⟩, by simp; omega⟩
  · cases h
    exact ⟨hsign, ⟨hdouble, .inr (Nat.le_add_left _ _)⟩, by simp; omega⟩

theorem IsNormal.value_lt {b c : Binary} (hb : b.IsNormal) (hc : c.IsNormal)
    (h : b.exponent < c.exponent) : b.value < c.value := by
  have hfull : 2 ^ 52 ≤ c.mantissa := hc.full.resolve_left (by have := hb.le_exponent; omega)
  have hmantissa : (b.mantissa : ℚ) < 2 ^ 53 := by exact_mod_cast hb.mantissa_lt
  calc b.value < 2 ^ 53 * 2 ^ b.exponent := by
        rw [value]
        gcongr
    _ = 2 ^ 52 * 2 ^ (b.exponent + 1) := by
        rw [zpow_add_one₀ two_ne_zero]
        ring
    _ ≤ 2 ^ 52 * 2 ^ c.exponent := by
        gcongr
        · exact one_le_two
        · omega
    _ ≤ c.value := by
        rw [value]
        gcongr
        exact_mod_cast hfull

/-- A value is taken apart into mantissa and exponent in one way only. -/
theorem IsNormal.eq_of_value {b c : Binary} (hb : b.IsNormal) (hc : c.IsNormal)
    (h : b.value = c.value) : b.mantissa = c.mantissa ∧ b.exponent = c.exponent := by
  rcases lt_trichotomy b.exponent c.exponent with hlt | heq | hgt
  · exact absurd h (hb.value_lt hc hlt).ne
  · have hpos : (0 : ℚ) < 2 ^ c.exponent := by positivity
    rw [value, value, heq, mul_left_inj' hpos.ne'] at h
    exact ⟨by exact_mod_cast h, heq⟩
  · exact absurd h (hc.value_lt hb hgt).ne'

end Binary

theorem exists_of_isFinite {x : Float} (h : x.isFinite = true) :
    ∃ b, Binary.ofFloat? x = some b ∧ b.IsDouble ∧ exactValue x = b.signed := by
  obtain ⟨b, hb⟩ := Option.isSome_iff_exists.mp ((Binary.isSome_ofFloat? x).trans h)
  exact ⟨b, hb, Binary.isDouble_of_ofFloat? hb, Binary.exactValue_eq hb⟩

/-- A double that is not negative, by its parts. -/
theorem exists_normal {x : Float} (h : x.isFinite = true) (hsign : isNegative x = false) :
    ∃ b : Binary, b.IsNormal ∧ exactValue x = b.value
      ∧ x.toBits.toNat = (b.exponent + 1074).toNat * 2 ^ 52 + b.mantissa := by
  obtain ⟨b, hb, -, hvalue⟩ := exists_of_isFinite h
  obtain ⟨hpositive, hnormal, hbits⟩ := Binary.bits_of_ofFloat? hb hsign
  rw [Binary.signed, hpositive, if_neg Bool.false_ne_true] at hvalue
  exact ⟨b, hnormal, hvalue, hbits⟩

/-- Of the doubles that are not negative, no two are the same number. -/
theorem eq_of_exactValue {x y : Float} (hx : x.isFinite = true) (hy : y.isFinite = true)
    (hxsign : isNegative x = false) (hysign : isNegative y = false)
    (h : exactValue x = exactValue y) : x = y := by
  obtain ⟨b, hb, hbvalue, hbbits⟩ := exists_normal hx hxsign
  obtain ⟨c, hc, hcvalue, hcbits⟩ := exists_normal hy hysign
  obtain ⟨hmantissa, hexponent⟩ := hb.eq_of_value hc (by rw [← hbvalue, h, hcvalue])
  refine toBits_injective (UInt64.toNat_inj.mp ?_)
  rw [hbbits, hcbits, hmantissa, hexponent]

/-! ## §2 Nearest -/

/-- The double that a number from zero upwards is rounded to. No double is nearer to the number, and
if another one is as near, the last bit is even. Numbers from half a unit above the greatest double
on are infinite. -/
inductive IsNearestDouble (q : ℚ) : Float → Prop
  | finite {x : Float} (hrange : q < Quotient.overflow) (hfinite : x.isFinite = true)
    (hsign : isNegative x = false)
    (hnear : ∀ y : Float, y.isFinite = true → |exactValue x - q| ≤ |exactValue y - q|)
    (heven : ∀ y : Float, y.isFinite = true → exactValue y ≠ exactValue x →
      |exactValue y - q| = |exactValue x - q| → x.toBits.toNat % 2 = 0) : IsNearestDouble q x
  | infinite (hrange : Quotient.overflow ≤ q) : IsNearestDouble q (infinity false)

theorem Binary.value_nonneg (b : Binary) : 0 ≤ b.value := by
  rw [value]
  positivity

/-- A minus takes a double farther away from a number that has none. -/
theorem Binary.abs_value_sub_le (c : Binary) {q : ℚ} (hq : 0 ≤ q) :
    |c.value - q| ≤ |c.signed - q| := by
  have hvalue := c.value_nonneg
  rw [signed]
  split
  · rw [abs_of_nonpos (by linarith : -c.value - q ≤ 0), abs_le]
    constructor <;> linarith
  · exact le_refl _

/-- Only zero is not taken farther away. -/
theorem Binary.signed_eq_value {c : Binary} {q : ℚ} (hq : 0 < q)
    (h : |c.signed - q| ≤ |c.value - q|) : c.signed = c.value := by
  have hvalue := c.value_nonneg
  rw [signed] at h ⊢
  split at h
  · rename_i hsign
    rw [abs_of_nonpos (by linarith : -c.value - q ≤ 0)] at h
    have hzero : c.value = 0 := by
      rcases le_abs.mp h with hle | hle
      · linarith
      · linarith
    rw [if_pos hsign, hzero, neg_zero]
  · rename_i hsign
    exact if_neg hsign

namespace Quotient

theorem value_pos {v : Quotient} (h : v.IsPositive) : 0 < v.value := by
  have hnum : (0 : ℚ) < v.num := by exact_mod_cast h.num_pos
  have hden : (0 : ℚ) < v.den := by exact_mod_cast h.den_pos
  exact div_pos hnum hden

/-- The double that a quotient in range is rounded to, in every respect. -/
theorem toFloat_spec {v : Quotient} (h : v.IsPositive) (hv : v.value < overflow) :
    v.toFloat.isFinite = true ∧ isNegative v.toFloat = false
      ∧ exactValue v.toFloat = v.units * (2 : ℚ) ^ v.unitExponent
      ∧ v.toFloat.toBits.toNat % 2 = v.units % 2 := by
  obtain ⟨b, hb, hsign, hvalue⟩ := ofFloat?_toFloat h hv
  have hlt := nearestBits_lt h hv
  have hbits : v.toFloat.toBits.toNat = (v.unitExponent + 1074).toNat * 2 ^ 52 + v.units := by
    rw [toFloat_eq h, nearestBits_eq, min_eq_right hlt.le, toBits_ofNat hlt.le]
  refine ⟨Binary.isFinite_of_ofFloat? hb, ?_, ?_, by rw [hbits]; omega⟩
  · rw [infinityBits] at hlt
    rw [isNegative, pow2_eq, hbits, beq_eq_false_iff_ne]
    omega
  · rw [Binary.exactValue_eq hb, Binary.signed, hsign, if_neg Bool.false_ne_true, hvalue]

/-- **A quotient is rounded to the nearest double.** -/
theorem isNearestDouble_toFloat {v : Quotient} (h : v.IsPositive) :
    IsNearestDouble v.value v.toFloat := by
  have hpos := value_pos h
  rcases lt_or_ge v.value overflow with hv | hv
  · obtain ⟨hfinite, hsign, hvalue, heven⟩ := toFloat_spec h hv
    refine .finite hv hfinite hsign (fun y hy => ?_) fun y hy hne htie => ?_
    · obtain ⟨c, -, hc, hcvalue⟩ := exists_of_isFinite hy
      rw [hvalue, hcvalue]
      exact (abs_error_le_abs_sub h hc).trans (c.abs_value_sub_le hpos.le)
    · obtain ⟨c, -, hc, hcvalue⟩ := exists_of_isFinite hy
      rw [hcvalue, hvalue] at hne htie
      -- no double with a minus is as near
      rw [Binary.signed_eq_value hpos (htie.trans_le (abs_error_le_abs_sub h hc))] at hne htie
      rw [heven]
      exact (tie_cases h hc hne htie).1
  · rw [toFloat_eq h, nearestBits_of_overflow h hv]
    exact .infinite hv

end Quotient

/-! ## §3 Unique -/

namespace Quotient

/-- The odd neighbour in a tie is a double with these parts: it neither fills up the next power of
two nor falls below this one. -/
theorem isNormal_of_tie {v : Quotient} (h : v.IsPositive) (hv : v.value < overflow) {n : Nat}
    (hodd : n % 2 = 1) (hhalf : |v.value * (2 : ℚ) ^ (-v.unitExponent) - n| = 1 / 2) :
    (⟨false, n, v.unitExponent⟩ : Binary).IsNormal := by
  obtain ⟨hlow, hhigh⟩ := abs_le.mp hhalf.le
  have hle : n ≤ 2 ^ 53 := by
    have hscaled := (scaled_le_iff v.unitExponent).mpr (value_units_lt h).le
    have hlt : (n : ℚ) < ((2 ^ 53 + 1 : Nat) : ℚ) := by
      push_cast
      linarith
    exact Nat.lt_succ_iff.mp (by exact_mod_cast hlt)
  have hfull : v.unitExponent = -1074 ∨ 2 ^ 52 ≤ n := by
    by_cases hleast : v.unitExponent = -1074
    · exact .inl hleast
    · have hscaled := (le_scaled_iff v.unitExponent).mpr (le_value_units h hleast)
      have hlt : ((2 ^ 52 : Nat) : ℚ) < ((n + 1 : Nat) : ℚ) := by
        push_cast
        linarith
      exact .inr (Nat.lt_succ_iff.mp (by exact_mod_cast hlt))
  exact ⟨⟨by show n < 2 ^ 53; omega, le_unitExponent v, unitExponent_le h hv⟩, hfull⟩

/-- Of two doubles that are as near, the one whose last bit is not even is not the nearest. -/
theorem eq_toFloat {v : Quotient} (h : v.IsPositive) {x : Float}
    (hx : IsNearestDouble v.value x) : x = v.toFloat := by
  rcases lt_or_ge v.value overflow with hv | hv
  · obtain ⟨hfinite, hsign, hvalue, -⟩ := toFloat_spec h hv
    cases hx with
    | infinite hrange => exact absurd hv hrange.not_gt
    | finite _ hxfinite hxsign hnear heven =>
      refine eq_of_exactValue hxfinite hfinite hxsign hsign ?_
      by_contra hne
      obtain ⟨c, hc, hcvalue, hcbits⟩ := exists_normal hxfinite hxsign
      have hle := hnear _ hfinite
      have heven := heven _ hfinite (Ne.symm hne)
      rw [hcvalue, hvalue] at hne hle heven
      have htie := le_antisymm hle (abs_error_le_abs_sub h hc.toIsDouble)
      obtain ⟨-, n, hn, hodd, hhalf⟩ := tie_cases h hc.toIsDouble hne htie
      have hmantissa : c.mantissa = n :=
        (hc.eq_of_value (isNormal_of_tie h hv hodd hhalf) hn).1
      have hbit := heven htie.symm
      rw [hcbits, hmantissa] at hbit
      omega
  · cases hx with
    | infinite _ => rw [toFloat_eq h, nearestBits_of_overflow h hv]; rfl
    | finite hrange _ _ _ _ => exact absurd hv hrange.not_ge

end Quotient

/-! ## §4 Decimals -/

theorem exactValue_zero : exactValue 0.0 = 0 := by rfl

/-- The least positive double is farther away from what lies below half of it than zero is. -/
theorem near_zero {q : ℚ} (hq : 0 ≤ q) (hsmall : 2 * q < 2 ^ (-1074 : Int)) {y : Float}
    (hy : y.isFinite = true) : exactValue y = 0 ∨ |0 - q| < |exactValue y - q| := by
  obtain ⟨c, -, hc, hcvalue⟩ := exists_of_isFinite hy
  rcases Nat.eq_zero_or_pos c.mantissa with hzero | hpos
  · refine .inl ?_
    rw [hcvalue, Binary.signed, Binary.value, hzero]
    simp
  · refine .inr ?_
    have hleast := hc.le_value hpos
    have haway : |0 - q| < |c.value - q| := by
      rw [zero_sub, abs_neg, abs_of_nonneg hq, abs_of_nonneg (by linarith)]
      linarith
    rw [hcvalue]
    exact haway.trans_le (c.abs_value_sub_le hq)

/-- What is less than half the least positive double is nearest to zero. -/
theorem isNearestDouble_zero {q : ℚ} (hq : 0 ≤ q) (hsmall : 2 * q < 2 ^ (-1074 : Int)) :
    IsNearestDouble q 0.0 := by
  have hrange : q < Quotient.overflow := by
    calc q ≤ 2 * q := by linarith
      _ < 2 ^ (-1074 : Int) := hsmall
      _ ≤ 2 ^ (1023 : Int) := zpow_le_zpow_right₀ one_le_two (by decide)
      _ ≤ Quotient.overflow := Quotient.le_overflow
  refine .finite hrange (by rfl) (by decide +kernel) (fun y hy => ?_) fun y hy hne htie => ?_
  · rw [exactValue_zero]
    rcases near_zero hq hsmall hy with hzero | hlt
    · rw [hzero]
    · exact hlt.le
  · rw [exactValue_zero] at hne htie
    rcases near_zero hq hsmall hy with hzero | hlt
    · exact absurd hzero hne
    · exact absurd htie hlt.ne'

/-- A value of so few places is less than half the least positive double. -/
theorem twice_lt_least {q : ℚ} {decade : Int} (hq : q < 10 ^ decade) (h : decade < leastDecade) :
    2 * q < 2 ^ (-1074 : Int) := by
  rw [leastDecade] at h
  calc 2 * q < 10 * 10 ^ decade := by linarith [ten_zpow_pos decade]
    _ = 10 ^ (decade + 1) := by rw [zpow_add_one₀ (by norm_num), mul_comm]
    _ ≤ 10 ^ (-324 : Int) := zpow_le_zpow_right₀ (by norm_num) (by omega)
    _ < 2 ^ (-1074 : Int) := least_lt

/-- A value of so many digits lies beyond the greatest double. -/
theorem overflow_le {q : ℚ} {decade : Int} (hq : 10 ^ (decade - 1) ≤ q)
    (h : greatestDecade < decade) : Quotient.overflow ≤ q := by
  rw [greatestDecade] at h
  by_contra hlt
  have htwice : Quotient.overflow ≤ 2 * Quotient.greatest := by
    rw [Quotient.overflow, Quotient.greatest, ← mul_assoc]
    gcongr
    norm_num
  have hexponent := exponent_le_of_le (hq.trans ((not_le.mp hlt).le.trans htwice))
  omega

/-- **A decimal is read as the nearest double**, however many digits it has. -/
theorem isNearestDouble_ofDecimal (m : Nat) (e : Int) :
    IsNearestDouble (m * 10 ^ e) (ofDecimal m e) := by
  rcases Nat.eq_zero_or_pos m with rfl | hm
  · rw [ofDecimal_zero, Nat.cast_zero, zero_mul]
    exact isNearestDouble_zero (le_refl 0) (by rw [mul_zero]; positivity)
  obtain ⟨hlow, hhigh⟩ := decade_spec hm e
  rw [sub_add_cancel] at hhigh
  simp only [ofDecimal, Bool.or_eq_true, decide_eq_true_eq, hm.ne', false_or]
  split
  · rename_i hsmall
    exact isNearestDouble_zero (by positivity) (twice_lt_least hhigh hsmall)
  split
  · rename_i hlarge
    exact .infinite (overflow_le hlow hlarge)
  · rw [← value_decimal]
    exact Quotient.isNearestDouble_toFloat (isPositive_decimal hm e)

theorem eq_zero_of_isNearestDouble {x : Float} (h : IsNearestDouble 0 x) : x = 0.0 := by
  cases h with
  | infinite hrange =>
    have hpos : (0 : ℚ) < 2 ^ (1023 : Int) := by positivity
    exact absurd (hpos.trans_le Quotient.le_overflow) hrange.not_gt
  | finite _ hfinite hsign hnear _ =>
    have hzero := hnear 0.0 (by rfl)
    rw [exactValue_zero, sub_zero, sub_zero, abs_zero, abs_nonpos_iff] at hzero
    exact eq_of_exactValue hfinite (by rfl) hsign (by decide +kernel) hzero

/-- A decimal has no other nearest double. -/
theorem isNearestDouble_ofDecimal_iff {m : Nat} {e : Int} {x : Float} :
    IsNearestDouble (m * 10 ^ e) x ↔ x = ofDecimal m e := by
  constructor
  · intro h
    rcases Nat.eq_zero_or_pos m with rfl | hm
    · rw [Nat.cast_zero, zero_mul] at h
      rw [ofDecimal_zero, eq_zero_of_isNearestDouble h]
    · have hv := isPositive_decimal hm e
      have hread := isNearestDouble_ofDecimal m e
      rw [← value_decimal] at h hread
      rw [Quotient.eq_toFloat hv h, Quotient.eq_toFloat hv hread]
  · rintro rfl
    exact isNearestDouble_ofDecimal m e

end SumSheet.Number
