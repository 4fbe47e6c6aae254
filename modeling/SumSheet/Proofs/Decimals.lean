/-
SumSheet.Proofs.Decimals — decimal digits and decimal numbers.

  §1 Digits   — how many digits a whole number has, and the number that
                digits spell.
  §2 Decades  — the powers of ten around a value.
  §3 Reading  — two spellings of one number are read as one double.
-/
import Mathlib
import SumSheet.Number.Shortest
import SumSheet.Proofs.Rounding

namespace SumSheet.Number

/-! ## §1 Digits -/

theorem digitCount_zero : digitCount 0 = 0 := by
  rw [digitCount, if_pos rfl]

theorem digitCount_pos {n : Nat} (h : 0 < n) : digitCount n = digitCount (n / 10) + 1 := by
  rw [digitCount, if_neg h.ne']

theorem pow10_eq (n : Nat) : pow10 n = 10 ^ n := rfl

/-- A number lies below the power of ten with as many zeros as it has digits. -/
theorem lt_pow_digitCount (n : Nat) : n < 10 ^ digitCount n := by
  induction n using Nat.strong_induction_on with
  | _ n ih =>
    rcases Nat.eq_zero_or_pos n with rfl | hpos
    · exact Nat.pow_pos (by decide)
    · have hlt := ih (n / 10) (by omega)
      rw [digitCount_pos hpos, Nat.pow_succ]
      omega

theorem pow_digitCount_le {n : Nat} (h : 0 < n) : 10 ^ digitCount n ≤ 10 * n := by
  induction n using Nat.strong_induction_on with
  | _ n ih =>
    rw [digitCount_pos h, Nat.pow_succ]
    rcases Nat.eq_zero_or_pos (n / 10) with hzero | hpos
    · rw [hzero, digitCount_zero]
      omega
    · have hle := ih (n / 10) (by omega) hpos
      omega

theorem digitCount_spec {n : Nat} (h : 0 < n) :
    (10 : ℚ) ^ ((digitCount n : Int) - 1) ≤ n ∧ (n : ℚ) < (10 : ℚ) ^ (digitCount n : Int) := by
  constructor
  · rw [zpow_sub_one₀ (by norm_num), zpow_natCast, ← div_eq_mul_inv, div_le_iff₀ (by norm_num),
      mul_comm (n : ℚ)]
    exact_mod_cast pow_digitCount_le h
  · rw [zpow_natCast]
    exact_mod_cast lt_pow_digitCount n

theorem ofDigits_append (ds es : List Char) :
    ofDigits (ds ++ es) = ofDigits ds * 10 ^ es.length + ofDigits es := by
  induction es using List.reverseRecOn with
  | nil => simp [ofDigits]
  | append_singleton es c ih =>
    simp only [ofDigits] at ih
    simp only [ofDigits, ← List.append_assoc, List.foldl_concat, ih, List.length_append,
      List.length_singleton, pow_succ]
    ring

theorem ofDigits_zeros (n : Nat) : ofDigits (List.replicate n '0') = 0 := by
  induction n with
  | zero => rfl
  | succ n ih =>
    rw [List.replicate_succ', ofDigits_append, ih]
    rfl

theorem ofDigits_append_zeros (ds : List Char) (n : Nat) :
    ofDigits (ds ++ List.replicate n '0') = ofDigits ds * 10 ^ n := by
  rw [ofDigits_append, ofDigits_zeros, List.length_replicate, Nat.add_zero]

theorem ofDigits_zeros_append (ds : List Char) (n : Nat) :
    ofDigits (List.replicate n '0' ++ ds) = ofDigits ds := by
  rw [ofDigits_append, ofDigits_zeros, Nat.zero_mul, Nat.zero_add]

/-! ## §2 Decades -/

namespace Quotient

theorem value_scale (v : Quotient) (power : Int) :
    (v.scale power).value = v.value * (10 : ℚ) ^ power := by
  simp only [value, scale, pow10_eq]
  push_cast
  rw [mul_div_mul_comm, pow_toNat_div]

theorem IsPositive.scale {v : Quotient} (h : v.IsPositive) (power : Int) :
    (v.scale power).IsPositive :=
  ⟨Nat.mul_pos h.num_pos (Nat.pow_pos (by decide)), Nat.mul_pos h.den_pos (Nat.pow_pos (by decide))⟩

/-- The powers of ten around a value. Below one, it is the whole part of the inverse that is
counted. -/
theorem decimalExponent_spec {v : Quotient} (h : v.IsPositive) :
    (10 : ℚ) ^ v.decimalExponent ≤ v.value ∧ v.value < (10 : ℚ) ^ (v.decimalExponent + 1) := by
  have hnum : (0 : ℚ) < v.num := by exact_mod_cast h.num_pos
  have hden : (0 : ℚ) < v.den := by exact_mod_cast h.den_pos
  rw [decimalExponent]
  split
  · rename_i hge
    have hpos : 0 < v.num / v.den := Nat.div_pos hge h.den_pos
    have hspec := digitCount_spec hpos
    have hlow : ((v.num / v.den : Nat) : ℚ) ≤ v.value := by
      rw [value, le_div_iff₀ hden]
      exact_mod_cast Nat.div_mul_le_self v.num v.den
    have hhigh : v.value < ((v.num / v.den + 1 : Nat) : ℚ) := by
      rw [value, div_lt_iff₀ hden]
      rw [mul_comm]
      exact_mod_cast Nat.lt_mul_div_succ v.num h.den_pos
    refine ⟨hspec.1.trans hlow, hhigh.trans_le ?_⟩
    rw [sub_add_cancel, zpow_natCast]
    exact_mod_cast lt_pow_digitCount _
  · rename_i hlt
    -- `q` is the greatest whole number below the inverse
    have hceil := Nat.div_add_mod (v.den + v.num - 1) v.num
    have hrest := Nat.mod_lt (v.den + v.num - 1) h.num_pos
    have htwo : 2 ≤ (v.den + v.num - 1) / v.num :=
      (Nat.le_div_iff_mul_le h.num_pos).mpr (by omega)
    obtain ⟨q, hq⟩ : ∃ q, (v.den + v.num - 1) / v.num = q + 1 :=
      ⟨(v.den + v.num - 1) / v.num - 1, by omega⟩
    rw [hq] at hceil htwo ⊢
    rw [Nat.add_sub_cancel]
    have hexpand : v.num * (q + 1) = v.num * q + v.num := Nat.mul_succ _ _
    have hbelow : v.num * q < v.den := by omega
    have habove : v.den ≤ v.num * (q + 1) := by omega
    have hpos : 0 < q := by omega
    have hspec := digitCount_spec hpos
    constructor
    · rw [value, le_div_iff₀ hden, zpow_neg, inv_mul_le_iff₀ (by positivity), zpow_natCast,
        mul_comm]
      have hlt := lt_pow_digitCount q
      exact_mod_cast habove.trans (Nat.mul_le_mul_left _ hlt)
    · have hsign : -(digitCount q : Int) + 1 = -((digitCount q : Int) - 1) := by ring
      rw [value, div_lt_iff₀ hden, hsign, zpow_neg, inv_mul_eq_div, lt_div_iff₀ (by positivity)]
      calc (v.num : ℚ) * 10 ^ ((digitCount q : Int) - 1) ≤ v.num * q := by
            gcongr
            exact hspec.1
        _ < v.den := by exact_mod_cast hbelow

end Quotient

/-! ## §3 Reading -/

/-- The powers of ten around a decimal number. -/
theorem decade_spec {m : Nat} (h : 0 < m) (e : Int) :
    (10 : ℚ) ^ (e + digitCount m - 1) ≤ m * 10 ^ e
      ∧ (m : ℚ) * 10 ^ e < 10 ^ (e + digitCount m - 1 + 1) := by
  have hspec := digitCount_spec h
  constructor
  · rw [add_sub_assoc, add_comm, zpow_add₀ (by norm_num)]
    exact mul_le_mul_of_nonneg_right hspec.1 (by positivity)
  · rw [sub_add_cancel, add_comm, zpow_add₀ (by norm_num)]
    exact mul_lt_mul_of_pos_right hspec.2 (by positivity)

/-- The quotient that is rounded to read a decimal. -/
theorem value_decimal (m : Nat) (e : Int) :
    (Quotient.scale ⟨m, 1⟩ e).value = m * (10 : ℚ) ^ e := by
  rw [Quotient.value_scale, Quotient.value]
  simp

theorem isPositive_decimal {m : Nat} (h : 0 < m) (e : Int) :
    (Quotient.scale ⟨m, 1⟩ e).IsPositive :=
  Quotient.IsPositive.scale ⟨h, Nat.one_pos⟩ e

theorem ofDecimal_zero (e : Int) : ofDecimal 0 e = 0.0 := by
  simp [ofDecimal]

/-- Two decimals of the same value are read as the same double. -/
theorem ofDecimal_congr {m n : Nat} {e f : Int} (h : (m : ℚ) * 10 ^ e = n * 10 ^ f) :
    ofDecimal m e = ofDecimal n f := by
  have hten (k : Int) : (10 : ℚ) ^ k ≠ 0 := by positivity
  rcases Nat.eq_zero_or_pos m with rfl | hm
  · have hzero : n = 0 := by
      rw [Nat.cast_zero, zero_mul, eq_comm, mul_eq_zero, or_iff_left (hten f)] at h
      exact_mod_cast h
    rw [hzero, ofDecimal_zero, ofDecimal_zero]
  · have hn : 0 < n := by
      rcases Nat.eq_zero_or_pos n with rfl | hn
      · rw [Nat.cast_zero, zero_mul, mul_eq_zero, or_iff_left (hten e)] at h
        exact absurd (by exact_mod_cast h) hm.ne'
      · exact hn
    have hdecade : e + digitCount m = f + digitCount n := by
      have hspec := decade_spec hn f
      rw [← h] at hspec
      have heq := Quotient.exponent_unique (by norm_num) (decade_spec hm e) hspec
      omega
    have hvalue : (Quotient.scale ⟨m, 1⟩ e).value = (Quotient.scale ⟨n, 1⟩ f).value := by
      rw [value_decimal, value_decimal, h]
    simp only [ofDecimal, hdecade, hm.ne', hn.ne',
      Quotient.toFloat_congr (isPositive_decimal hm e) (isPositive_decimal hn f) hvalue]

end SumSheet.Number
