/-
SumSheet.Proofs.DecimalPlaces — how far rounding to decimal places goes.

A value is scaled by a power of ten, rounded to a whole number and scaled
back, and all of it is computed with doubles. As long as the factor and
the scaled value are in range, three small errors come on top of the half
unit that decimal rounding may be off (`roundScaled_near`): that of the
scaled value, that of the last division, and that of a factor which falls
short of its power. Each of them is relative to the value. This is so
although the result may lie among the doubles next to zero, where errors
are absolute: a whole number that is not zero, divided by the greatest
power of ten, is only just below the range of full mantissas
(`division_error`). And if the whole number is zero, the result is zero,
and the value itself is hardly more than half a unit.

Out of range the result is infinite, or there is none. For more than 308
places the factor is infinite, and what is infinite or zero is divided by
infinity in the end (`evaluate_roundPlaces`).

  §1 Whole numbers — rounding to them, and converting them.
  §2 In range      — the sum of the errors.
  §3 Out of range  — of the scaled value, or of the factor.
  §4 Expressions   — that call the rounding.
-/
import SumSheet.Proofs.ExpressionValue
import SumSheet.Proofs.PowersOfTen

namespace SumSheet

namespace Number

open Float.Model (UnpackedFloat)

/-! ## §1 Whole numbers -/

/-- The bits of a whole number that fits into a mantissa, below the sign. -/
theorem toBits_whole {n : Nat} (hn : n < 2 ^ 53) : ∃ bits < Quotient.infinityBits,
    (∀ negative, Binary.toBits ⟨negative, n, 0⟩ = (if negative then 2 ^ 63 else 0) + bits)
      ∧ (Float.ofBits (UInt64.ofNat bits)).isFinite = true
      ∧ exactValue (Float.ofBits (UInt64.ofNat bits)) = n := by
  have hparts (units : Nat) (e : Int) (he : -1074 ≤ e) (he' : e ≤ 0) (hunits : units < 2 ^ 53)
      (hfull : e = -1074 ∨ 2 ^ 52 ≤ units) :
      (e + 1074).toNat * 2 ^ 52 + units < Quotient.infinityBits
        ∧ (Float.ofBits (UInt64.ofNat ((e + 1074).toNat * 2 ^ 52 + units))).isFinite = true
        ∧ exactValue (Float.ofBits (UInt64.ofNat ((e + 1074).toNat * 2 ^ 52 + units)))
          = units * (2 : ℚ) ^ e := by
    have hbits : (e + 1074).toNat * 2 ^ 52 + units < Quotient.infinityBits := by
      rw [Quotient.infinityBits]
      omega
    obtain ⟨b, hb, hsign, hvalue⟩ := Binary.ofFloat?_units he hunits.le hfull hbits
    refine ⟨hbits, Binary.isFinite_of_ofFloat? hb, ?_⟩
    rw [Binary.exactValue_eq hb, Binary.signed, hsign, if_neg Bool.false_ne_true, hvalue]
  rcases Nat.eq_zero_or_pos n with rfl | hpos
  · obtain ⟨hbits, hfinite, hvalue⟩ := hparts 0 (-1074) le_rfl (by omega) (by omega) (.inl rfl)
    refine ⟨_, hbits, fun negative => ?_, hfinite, by rw [hvalue]; simp⟩
    cases negative <;> rfl
  · -- the mantissa is filled up with zeros
    have hlow := Nat.log2_self_le hpos.ne'
    have hlog : n.log2 ≤ 52 := Nat.le_of_lt_succ ((Nat.log2_lt hpos.ne').mpr hn)
    have hfull : 2 ^ 52 ≤ n * 2 ^ (52 - n.log2) := by
      calc 2 ^ 52 = 2 ^ n.log2 * 2 ^ (52 - n.log2) := by rw [← Nat.pow_add]; congr 1; omega
        _ ≤ n * 2 ^ (52 - n.log2) := Nat.mul_le_mul_right _ hlow
    have hfit : n * 2 ^ (52 - n.log2) < 2 ^ 53 := by
      calc n * 2 ^ (52 - n.log2) < 2 ^ (n.log2 + 1) * 2 ^ (52 - n.log2) :=
            Nat.mul_lt_mul_of_pos_right Nat.lt_log2_self (Nat.two_pow_pos _)
        _ = 2 ^ 53 := by rw [← Nat.pow_add]; congr 1; omega
    obtain ⟨hbits, hfinite, hvalue⟩ := hparts (n * 2 ^ (52 - n.log2))
      (-((52 - n.log2 : Nat) : Int)) (by omega) (by omega) hfit (.inr hfull)
    refine ⟨_, hbits, fun negative => ?_, hfinite, ?_⟩
    · have hroom : Binary.headroom ⟨negative, n, 0⟩ = 52 - n.log2 := by
        simp only [Binary.headroom, fractionBits, leastExponent]
        omega
      simp only [Binary.toBits, hroom, pow2_eq, fractionBits, leastExponent, if_neg hfull.not_gt]
      generalize n * 2 ^ (52 - n.log2) = mantissa at hfull hfit
      split <;> omega
    · rw [hvalue]
      push_cast
      rw [zpow_neg, zpow_natCast, mul_inv_cancel_right₀ (by positivity)]

/-- A whole number that fits into a mantissa is a double. -/
theorem exactValue_ofWhole (negative : Bool) {n : Nat} (hn : n < 2 ^ 53) :
    (ofWhole negative n).isFinite = true
      ∧ exactValue (ofWhole negative n) = if negative then -(n : ℚ) else n := by
  obtain ⟨bits, hlt, hbits, hfinite, hvalue⟩ := toBits_whole hn
  cases negative with
  | false =>
    rw [ofWhole, Binary.toFloat, hbits]
    simpa using ⟨hfinite, hvalue⟩
  | true =>
    have hneg : ofWhole true n = -Float.ofBits (UInt64.ofNat bits) := by
      refine toBits_injective (UInt64.toNat_inj.mp ?_)
      rw [toBits_neg (isOrdered_of_isFinite hfinite), toBits_ofNat hlt.le, ofWhole, Binary.toFloat,
        hbits]
      rw [Quotient.infinityBits] at hlt
      have hnat : (UInt64.ofNat ((if true then 2 ^ 63 else 0) + bits)).toNat = 2 ^ 63 + bits := by
        rw [UInt64.toNat_ofNat', if_pos rfl]
        omega
      rw [toBits_ofBits (by rw [hnat, IsOrdered]; omega), hnat]
      omega
    rw [hneg, exactValue_neg hfinite, hvalue]
    exact ⟨isFinite_neg hfinite, rfl⟩

/-- A magnitude is a whole number, or a number of binary fractions of one. -/
theorem Binary.value_cases (b : Binary) :
    (0 ≤ b.exponent ∧ b.value = ((b.mantissa * pow2 b.exponent.toNat : Nat) : ℚ))
      ∨ (b.exponent < 0 ∧ b.value = (b.mantissa : ℚ) / (pow2 (-b.exponent).toNat : Nat)) := by
  rcases le_or_gt 0 b.exponent with hexponent | hexponent
  · refine .inl ⟨hexponent, ?_⟩
    rw [value, pow2_eq]
    push_cast
    rw [← zpow_natCast, Int.toNat_of_nonneg hexponent]
  · refine .inr ⟨hexponent, ?_⟩
    rw [value, pow2_eq]
    push_cast
    rw [← zpow_natCast, Int.toNat_of_nonneg (by omega), zpow_neg, div_inv_eq_mul]

/-- The nearest whole number, a half going up. -/
def halfUp (m unit : Nat) : Nat :=
  if unit ≤ 2 * (m % unit) then m / unit + 1 else m / unit

theorem halfUp_spec (m : Nat) {unit : Nat} (hunit : 0 < unit) :
    |(halfUp m unit : ℚ) - m / unit| ≤ 1 / 2 ∧ ((m : ℚ) / unit < 1 / 2 → halfUp m unit = 0) := by
  have hpos : (0 : ℚ) < unit := by exact_mod_cast hunit
  have hlt := Nat.mod_lt m hunit
  rw [natCast_div_eq m hunit, halfUp]
  generalize m / unit = whole
  generalize m % unit = rest at hlt
  have hrest : 0 ≤ (rest : ℚ) / unit := by positivity
  have hone : (rest : ℚ) / unit < 1 := by
    rw [div_lt_one hpos]
    exact_mod_cast hlt
  split
  · rename_i hup
    have hhalf : 1 / 2 ≤ (rest : ℚ) / unit := by
      rw [div_le_div_iff₀ two_pos hpos]
      exact_mod_cast (by omega : 1 * unit ≤ rest * 2)
    push_cast
    have hwhole : (0 : ℚ) ≤ whole := Nat.cast_nonneg _
    exact ⟨abs_le.mpr ⟨by linarith, by linarith⟩, fun hlow => by linarith⟩
  · rename_i hdown
    have hhalf : (rest : ℚ) / unit < 1 / 2 := by
      rw [div_lt_div_iff₀ hpos two_pos]
      exact_mod_cast (by omega : rest * 2 < 1 * unit)
    refine ⟨abs_le.mpr ⟨by linarith, by linarith⟩, fun hlow => ?_⟩
    have hwhole : (whole : ℚ) < 1 := by linarith
    exact Nat.lt_one_iff.mp (by exact_mod_cast hwhole)

theorem round_eq {x : Float} {b : Binary} (hb : Binary.ofFloat? x = some b) :
    round x = if 0 ≤ b.exponent then x
      else ofWhole b.negative (halfUp b.mantissa (pow2 (-b.exponent).toNat)) := by
  rw [round, roundWith, hb]
  rfl

/-- The whole number that a double is rounded to is at most a half away, and zero if the double is
less than a half. -/
theorem round_spec {x : Float} (hx : x.isFinite = true) :
    (round x).isFinite = true ∧ ∃ k : Int, exactValue (round x) = k ∧ |k - exactValue x| ≤ 1 / 2
      ∧ (|exactValue x| < 1 / 2 → k = 0) := by
  obtain ⟨b, hb, hdouble, hvalue⟩ := exists_of_isFinite hx
  have hmagnitude := b.abs_signed
  rw [round_eq hb]
  rcases b.value_cases with ⟨hexponent, hwhole⟩ | ⟨hexponent, hfraction⟩
  · rw [if_pos hexponent]
    generalize b.mantissa * pow2 b.exponent.toNat = n at hwhole
    refine ⟨hx, if b.negative then -(n : Int) else n, ?_⟩
    have hcast : exactValue x = ((if b.negative then -(n : Int) else n : Int) : ℚ) := by
      rw [hvalue, Binary.signed, hwhole]
      split <;> simp
    refine ⟨hcast, by rw [← hcast, sub_self, abs_zero]; norm_num, fun hlow => ?_⟩
    rw [hvalue, hmagnitude, hwhole] at hlow
    have hzero : n = 0 := by
      by_contra hsome
      have hone : (1 : ℚ) ≤ n := by exact_mod_cast Nat.one_le_iff_ne_zero.mpr hsome
      linarith
    simp [hzero]
  · rw [if_neg hexponent.not_ge]
    have hunit : 2 ≤ pow2 (-b.exponent).toNat := by
      rw [pow2_eq]
      exact Nat.le_self_pow (by omega) 2
    obtain ⟨hnear, hlow⟩ := halfUp_spec b.mantissa (by omega : 0 < pow2 (-b.exponent).toNat)
    have hfit : halfUp b.mantissa (pow2 (-b.exponent).toNat) < 2 ^ 53 := by
      have hmantissa := hdouble.mantissa_lt
      have hhalf : b.mantissa / pow2 (-b.exponent).toNat ≤ b.mantissa / 2 :=
        Nat.div_le_div_left hunit two_pos
      rw [halfUp]
      split <;> omega
    rw [← hfraction] at hnear hlow
    generalize halfUp b.mantissa (pow2 (-b.exponent).toNat) = n at hnear hlow hfit
    obtain ⟨hfinite, hn⟩ := exactValue_ofWhole b.negative hfit
    refine ⟨hfinite, if b.negative then -(n : Int) else n, ?_, ?_, fun hsmall => ?_⟩
    · rw [hn]
      split <;> simp
    · rw [hvalue, Binary.signed]
      split
      · push_cast
        rwa [neg_sub_neg, abs_sub_comm]
      · exact_mod_cast hnear
    · rw [hvalue, hmagnitude] at hsmall
      simp [hlow hsmall]

/-- The whole number that a double is. -/
theorem toInt?_eq {x : Float} (hx : x.isFinite = true) {n : Int} (hn : exactValue x = n) :
    toInt? x = some n := by
  obtain ⟨b, hb, -, hvalue⟩ := exists_of_isFinite hx
  have hmagnitude : (if 0 ≤ b.exponent then b.mantissa * pow2 b.exponent.toNat
      else b.mantissa / pow2 (-b.exponent).toNat) = n.natAbs := by
    have habs : b.value = (n.natAbs : ℚ) := by
      rw [← b.abs_signed, ← hvalue, hn, Nat.cast_natAbs, Int.cast_abs]
    rcases b.value_cases with ⟨hexponent, hwhole⟩ | ⟨hexponent, hfraction⟩
    · rw [if_pos hexponent]
      exact_mod_cast hwhole.symm.trans habs
    · have hunit : 0 < pow2 (-b.exponent).toNat := Nat.two_pow_pos _
      rw [if_neg hexponent.not_ge]
      rw [hfraction, div_eq_iff (by exact_mod_cast hunit.ne')] at habs
      rw [show b.mantissa = n.natAbs * pow2 (-b.exponent).toNat by exact_mod_cast habs,
        Nat.mul_div_cancel _ hunit]
  have hsign : n = if b.negative then -(n.natAbs : Int) else n.natAbs := by
    have hsigned : (n : ℚ) = b.signed := hn.symm.trans hvalue
    have hnonneg := b.value_nonneg
    rw [Binary.signed] at hsigned
    split
    · rename_i hnegative
      rw [if_pos hnegative] at hsigned
      have hle : (n : ℚ) ≤ 0 := by linarith
      have hle : n ≤ 0 := by exact_mod_cast hle
      omega
    · rename_i hpositive
      rw [if_neg hpositive] at hsigned
      have hle : (0 : ℚ) ≤ n := by linarith
      have hle : 0 ≤ n := by exact_mod_cast hle
      omega
  simp only [toInt?, hb, Option.map_some]
  rw [hmagnitude]
  exact congrArg some hsign.symm

/-! ## §2 In range -/

section

variable {power f : ℚ} (hpower : 1 ≤ power) (hlow : power * (1 - 1 / 2 ^ 52) ≤ f)

include hpower hlow

/-- What is rounded to zero is hardly more than half a unit. -/
theorem abs_le_half_unit {a : ℚ} (ha : 0 ≤ a) (h : a * f * (1 - 1 / 2 ^ 53) ≤ 1 / 2) :
    a ≤ 1 / (2 * power) + a / 2 ^ 50 := by
  have hscaled : a * ((1 - 1 / 2 ^ 52) * (1 - 1 / 2 ^ 53)) * power ≤ 1 / 2 := by
    calc a * ((1 - 1 / 2 ^ 52) * (1 - 1 / 2 ^ 53)) * power
        = a * (power * (1 - 1 / 2 ^ 52)) * (1 - 1 / 2 ^ 53) := by
          ring
      _ ≤ a * f * (1 - 1 / 2 ^ 53) := by
          gcongr
      _ ≤ 1 / 2 := h
  have hunit : a * ((1 - 1 / 2 ^ 52) * (1 - 1 / 2 ^ 53)) ≤ 1 / (2 * power) := by
    rw [← div_div, le_div_iff₀ (by linarith)]
    exact hscaled
  have hloss : a * (1 - 1 / 2 ^ 50) ≤ a * ((1 - 1 / 2 ^ 52) * (1 - 1 / 2 ^ 53)) := by
    gcongr
    norm_num
  linarith

/-- A half behind the point is hardly more than half a unit, beside a value that is not less. -/
theorem half_le_half_unit {a : ℚ} (h : 1 / 2 ≤ a * f * (1 + 1 / 2 ^ 53)) :
    1 / 2 / f ≤ 1 / (2 * power) + a * (1 + 1 / 2 ^ 53) / 2 ^ 52 := by
  have hf : 0 < f := lt_of_lt_of_le (mul_pos (by linarith) (by norm_num)) hlow
  have hshort : 1 / 2 / f * (1 - 1 / 2 ^ 52) ≤ 1 / (2 * power) := by
    rw [← div_div, div_mul_eq_mul_div, div_le_div_iff₀ hf (by linarith)]
    linarith
  have hle : 1 / 2 / f ≤ a * (1 + 1 / 2 ^ 53) := by
    rw [div_le_iff₀ hf]
    linarith
  linarith

end

/-- An error is relative where what is rounded is far from the least doubles. -/
theorem relative_error {y z : ℚ} (hhalf : 1 / 2 ≤ |y|)
    (herror : |y - z| ≤ max (|z| / 2 ^ 53) (2 ^ (-1075 : Int))) :
    |y - z| ≤ |z| / 2 ^ 53 ∧ |y| ≤ |z| * (1 + 1 / 2 ^ 53) := by
  have hleast := half_least_le
  have hsub := (abs_sub_abs_le_abs_sub y z).trans herror
  have hrelative : (2 : ℚ) ^ (-1075 : Int) ≤ |z| / 2 ^ 53 := by
    by_contra hlt
    rw [max_eq_right (not_le.mp hlt).le] at hsub
    linarith
  rw [max_eq_left hrelative] at herror hsub
  exact ⟨herror, by linarith⟩

/-- A value that is rounded to zero is at most a half, but for the rounding before. -/
theorem abs_le_of_rounded_zero {y z : ℚ} (hy : |y| ≤ 1 / 2)
    (herror : |y - z| ≤ max (|z| / 2 ^ 53) (2 ^ (-1075 : Int))) :
    |z| * (1 - 1 / 2 ^ 53) ≤ 1 / 2 := by
  have hleast := half_least_le
  rw [abs_sub_comm] at herror
  have hle := (abs_sub_abs_le_abs_sub z y).trans herror
  rcases max_choice (|z| / 2 ^ 53) ((2 : ℚ) ^ (-1075 : Int)) with hmax | hmax
  all_goals
    rw [hmax] at hle
    linarith

/-- A whole number near a multiple of the factor, divided by the factor. -/
theorem quotient_error {k y a f : ℚ} (hf : 0 < f) (hnear : |k - y| ≤ 1 / 2) (hhalf : 1 / 2 ≤ |y|)
    (herror : |y - a * f| ≤ |a| * f / 2 ^ 53) :
    |k / f - a| ≤ 1 / 2 / f + |a| / 2 ^ 53 ∧ |k / f| ≤ 2 * |a| * (1 + 1 / 2 ^ 53) := by
  have hy : |y| ≤ |a| * f * (1 + 1 / 2 ^ 53) := by
    have hsub := (abs_sub_abs_le_abs_sub y (a * f)).trans herror
    rw [abs_mul, abs_of_pos hf] at hsub
    linarith
  have hk : |k| ≤ 2 * |y| := by linarith [abs_sub_abs_le_abs_sub k y]
  have hsum := (abs_sub_le k y (a * f)).trans (add_le_add hnear herror)
  constructor
  · rw [div_sub' hf.ne', mul_comm f, abs_div, abs_of_pos hf, div_le_iff₀ hf, add_mul,
      div_mul_cancel₀ _ hf.ne']
    linarith
  · rw [abs_div, abs_of_pos hf, div_le_iff₀ hf]
    linarith

/-- The division makes a relative error, although its result may lie among the doubles next to
zero: the divisor is the greatest power of ten at most, and those are not far. -/
theorem division_error {k : Int} {f : ℚ} {v : Float} (hk : k ≠ 0) (hone : 1 ≤ f)
    (hhigh : f ≤ 9 * 2 ^ 1020) (hrange : |(k : ℚ)| < Quotient.overflow)
    (hround : RoundsTo (k / f) v) :
    v.isFinite = true ∧ |exactValue v - k / f| ≤ 9 / 4 * |k / f| / 2 ^ 53 := by
  have hf : 0 < f := by linarith
  have hk_one : 1 ≤ |(k : ℚ)| := by exact_mod_cast Int.one_le_abs hk
  have hlow : 1 / (9 * 2 ^ 1020) ≤ |k / f| := by
    rw [abs_div, abs_of_pos hf]
    exact div_le_div₀ (abs_nonneg _) hk_one hf hhigh
  have hquotient : |k / f| < Quotient.overflow := by
    rw [abs_div, abs_of_pos hf]
    exact (div_le_self (abs_nonneg _) hone).trans_lt hrange
  have hunit : (2 : ℚ) ^ (-1075 : Int) ≤ 9 / 4 * (1 / (9 * 2 ^ 1020)) / 2 ^ 53 := by decide +kernel
  refine ⟨hround.isFinite hquotient, (hround.abs_error_le hquotient).trans (max_le ?_ ?_)⟩
  · linarith [abs_nonneg ((k : ℚ) / f)]
  · refine hunit.trans ?_
    gcongr

section

variable {x factor : Float} (hx : x.isFinite = true) (hfactor : factor.isFinite = true)

include hx hfactor

/-- Scaled, rounded to a whole number and scaled back. The whole number is wrong by a half and by
the rounding of the scaled value; scaling back makes a relative error. -/
theorem roundScaled_near {power : ℚ} (hpower : 1 ≤ power)
    (hlow : power * (1 - 1 / 2 ^ 52) ≤ exactValue factor) (hone : 1 ≤ exactValue factor)
    (hhigh : exactValue factor ≤ 9 * 2 ^ 1020)
    (hrange : |exactValue x| * exactValue factor < Quotient.overflow) :
    (round (x * factor) / factor).isFinite = true
      ∧ |exactValue (round (x * factor) / factor) - exactValue x|
        ≤ 1 / (2 * power) + |exactValue x| / 2 ^ 50 := by
  have hpos : 0 < exactValue factor := by linarith
  have habs : |exactValue x * exactValue factor| = |exactValue x| * exactValue factor := by
    rw [abs_mul, abs_of_pos hpos]
  have hscaled := mul_roundsTo hx hfactor
  have hfinite := hscaled.isFinite (habs ▸ hrange)
  have herror := hscaled.abs_error_le (habs ▸ hrange)
  obtain ⟨hwhole, k, hk, hnear, hsmall⟩ := round_spec hfinite
  have hback := div_roundsTo hwhole hfactor hpos.ne'
  rw [hk] at hback
  by_cases hzero : k = 0
  · rw [hzero, Int.cast_zero, zero_div] at hback
    have hrange_zero : |(0 : ℚ)| < Quotient.overflow := by
      rw [abs_zero]
      exact lt_of_lt_of_le (by positivity) Quotient.le_overflow
    have hvanished := hback.abs_sub_le hrange_zero isFinite_zero
    rw [exactValue_zero, sub_zero, sub_zero, abs_zero, abs_nonpos_iff] at hvanished
    refine ⟨hback.isFinite hrange_zero, ?_⟩
    rw [hvanished, zero_sub, abs_neg]
    rw [hzero, Int.cast_zero, zero_sub, abs_neg] at hnear
    exact abs_le_half_unit hpower hlow (abs_nonneg _) (habs ▸ abs_le_of_rounded_zero hnear herror)
  · have hhalf := not_lt.mp fun hlt => hzero (hsmall hlt)
    obtain ⟨hrelative, hy⟩ := relative_error hhalf herror
    rw [habs] at hrelative hy
    obtain ⟨hquotient, hquotient_le⟩ := quotient_error hpos hnear hhalf hrelative
    obtain ⟨hresult, hlast⟩ :=
      division_error hzero hone hhigh (hk ▸ abs_exactValue_lt hwhole) hback
    have hunit := half_le_half_unit hpower hlow (hhalf.trans hy)
    have htotal := abs_sub_le (exactValue (round (x * factor) / factor)) (k / exactValue factor)
      (exactValue x)
    exact ⟨hresult, by linarith [abs_nonneg (exactValue x)]⟩

end

/-! ## §3 Out of range -/

/-- A scaled value beyond all doubles stays there. -/
theorem roundScaled_eq_infinity {x factor : Float} (hx : x.isFinite = true)
    (hfactor : factor.isFinite = true) (hpos : 0 < exactValue factor)
    (hrange : Quotient.overflow ≤ |exactValue x| * exactValue factor) :
    round (x * factor) / factor = infinity (exactValue x < 0) := by
  have hinf : x * factor = infinity (exactValue x < 0) := by
    have hround := mul_roundsTo hx hfactor
    rw [hround.eq_infinity (by rwa [abs_mul, abs_of_pos hpos])]
    congr 1
    exact decide_eq_decide.mpr ⟨fun h => by nlinarith, fun h => mul_neg_of_neg_of_pos h hpos⟩
  have hround (negative : Bool) : round (infinity negative) = infinity negative := by
    cases negative <;> rfl
  rw [hinf, hround, infinity_div hfactor hpos]

/-- With an infinite factor nothing is left. -/
theorem isNaN_roundScaled {x : Float} (hx : x.isFinite = true) :
    (round (x * infinity false) / infinity false).isNaN = true := by
  by_cases hzero : exactValue x = 0
  · have hmul : x * infinity false = Float.ofModel (.pack
        (UnpackedFloat.mul .binary64 x.toModel.unpack (infinity false).toModel.unpack)) := rfl
    have hnan : x * infinity false = Float.ofModel (.pack .notANumber) := by
      rw [hmul, unpack_infinity]
      obtain ⟨s, hunpack, -⟩ | ⟨s, m, e, hm, -, hvalue, -⟩ := unpack_cases hx
      · rw [hunpack]
        rfl
      · have hpos : (0 : ℚ) < m * 2 ^ e := by positivity
        rw [hzero] at hvalue
        cases s <;> simp only [signed] at hvalue <;> linarith
    rw [hnan]
    rfl
  · rw [(mul_infinity hx hzero).1]
    generalize decide (exactValue x < 0) = negative
    cases negative <;> rfl

theorem places_natCast {d : Float} (hd : d.isFinite = true) {n : Nat} (hn : exactValue d = n) :
    places d = min (n : Int) greatestPlaces := by
  rw [places, toInt?_eq hd (n := n) (by exact_mod_cast hn)]
  show max leastPlaces _ = _
  rw [leastPlaces, greatestPlaces]
  omega

end Number

/-! ## §4 Expressions -/

open Number

/-- Rounding to decimal places. -/
def roundPlaces : BinaryFunction := .round

theorem roundTo_eq (x : Float) {d : Float} (hd : d.isFinite = true) {n : Nat}
    (hn : exactValue d = n) (hplaces : n ≤ 308) :
    roundTo x d = round (x * powerOf 10.0 n) / powerOf 10.0 n := by
  rw [roundTo, places_natCast hd hn, greatestPlaces, min_eq_left (by omega)]

theorem isNaN_roundTo {x d : Float} (hx : x.isFinite = true) (hd : d.isFinite = true) {n : Nat}
    (hn : exactValue d = n) (hplaces : 308 < n) : (roundTo x d).isNaN = true := by
  have hclipped : min (n : Int) greatestPlaces = ((min n 2147483647 : Nat) : Int) := by
    rw [greatestPlaces]
    omega
  simp only [roundTo, places_natCast hd hn, hclipped,
    powerOf_ten_of_lt (by omega : 308 < min n 2147483647)]
  exact isNaN_roundScaled hx

theorem isNaN_infinity (negative : Bool) : (infinity negative).isNaN = false := by
  cases negative <;> rfl

end SumSheet
