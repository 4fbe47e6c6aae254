/-
SumSheet.Proofs.RoundedArithmetic — an operation on doubles is rounded
once.

A product, a quotient and a difference of doubles are computed on whole
numbers: a mantissa and an exponent, with a note of what is cut off behind
the mantissa. The mantissa is shifted until it fits, two bits carry what
falls off, and the last step rounds by these two bits. `Describes` says of
which number they tell the truth; it survives every shift, so what is
rounded at the end is the exact result of the operation. The double is
therefore the one that the quotient of whole numbers is rounded to, which
is known to be nearest.

`RoundsTo` is what is kept of it for calculations with bounds: no double
is nearer to the exact result, and the error is small relative to the
result, or less than any double next to zero.

  §1 Residues   — what a mantissa and its two bits say of a number.
  §2 Packing    — the bits of the double that a mantissa is rounded to.
  §3 Rounding   — which double a rational number is rounded to.
  §4 Operations — products, quotients and differences.
  §5 Infinities — what they leave of a finite double.
-/
import Mathlib
import SumSheet.Proofs.DisplayOrder
import SumSheet.Proofs.NumericResults

namespace SumSheet.Number

open Float.Model (Format UnpackedFloat totalExponent)
open Float.Model.UnpackedFloat

/-! ## §1 Residues -/

/-- The mantissa is the whole part of the number, and the two bits say where behind it the number
lies: nowhere, below the half, at the half or above it. -/
def Describes (em : ExtendedMantissa) (x : ℚ) : Prop :=
  match em.roundBit, em.stickyBit with
  | false, false => x = em.mantissa
  | false, true => em.mantissa < x ∧ x < em.mantissa + 1 / 2
  | true, false => x = em.mantissa + 1 / 2
  | true, true => em.mantissa + 1 / 2 < x ∧ x < em.mantissa + 1

namespace Describes

variable {em : ExtendedMantissa} {x : ℚ}

theorem bounds (h : Describes em x) : em.mantissa ≤ x ∧ x < em.mantissa + 1 := by
  obtain ⟨m, round, sticky⟩ := em
  cases round <;> cases sticky <;> simp only [Describes] at h <;>
    constructor <;> linarith

/-- Shifting by one moves the last bit of the mantissa behind it. -/
theorem shiftRightOne (h : Describes em x) : Describes em.shiftRightOne (x / 2) := by
  obtain ⟨m, round, sticky⟩ := em
  have hm : (m : ℚ) = 2 * (m / 2 : Nat) + (m % 2 : Nat) := by
    exact_mod_cast (Nat.div_add_mod m 2).symm
  rcases Nat.mod_two_eq_zero_or_one m with hbit | hbit <;>
    rw [hbit] at hm <;> cases round <;> cases sticky <;>
    simp only [Describes, ExtendedMantissa.shiftRightOne, hbit, bne_self_eq_false, Bool.or_self,
      Bool.or_true, Bool.or_false, show ((1 : Nat) != 0) = true from rfl] at h ⊢ <;>
    push_cast at hm <;> first | linarith | (constructor <;> linarith)

theorem shiftRight (h : Describes em x) (n : Nat) : Describes (em >>> n) (x / 2 ^ n) := by
  show Describes (n.repeat ExtendedMantissa.shiftRightOne em) _
  induction n with
  | zero => simpa [Nat.repeat] using h
  | succ n ih =>
    rw [Nat.repeat, pow_succ, ← div_div]
    exact ih.shiftRightOne

/-- The mantissa is rounded to the whole number that is nearest. -/
theorem isNearest (h : Describes em x) : IsNearest x em.roundedMantissa := by
  obtain ⟨m, round, sticky⟩ := em
  cases round <;> cases sticky <;>
    simp only [Describes, ExtendedMantissa.roundedMantissa, ExtendedMantissa.accuracy,
      Accuracy.roundToNearestEven] at h ⊢
  · rw [h]
    exact .of_lt (by norm_num)
  · exact .of_lt (abs_lt.mpr ⟨by linarith, by linarith⟩)
  · rw [h]
    refine ⟨?_, fun _ => by omega⟩
    rcases Nat.mod_two_eq_zero_or_one m with heven | hodd
    · rw [heven]
      norm_num
    · rw [hodd]
      norm_num
  · refine .of_lt (abs_lt.mpr ?_)
    push_cast
    constructor <;> linarith

end Describes

theorem describes_exact (m : Nat) : Describes (.ofMantissaAndAccuracy m .exact) m := rfl

/-- The remainder of a division tells how much is missing from the quotient. -/
theorem describes_fraction (n : Nat) {d : Nat} (hd : 0 < d) :
    Describes (.ofMantissaAndAccuracy (n / d) (accuracyOfFraction (n % d) d)) (n / d) := by
  have hden : (0 : ℚ) < d := by exact_mod_cast hd
  have hrest := Nat.mod_lt n hd
  rw [natCast_div_eq n hd]
  generalize n / d = whole
  generalize n % d = rest at hrest ⊢
  have hone : (rest : ℚ) / d < 1 := by
    rw [div_lt_one hden]
    exact_mod_cast hrest
  unfold accuracyOfFraction
  split
  · rename_i hnone
    simp [Describes, ExtendedMantissa.ofMantissaAndAccuracy, hnone]
  · rename_i hsome
    have hpos : (0 : ℚ) < (rest : ℚ) / d :=
      div_pos (by exact_mod_cast Nat.pos_of_ne_zero hsome) hden
    cases hhalf : compare (2 * rest) d with
    | lt =>
      have hlow : (rest : ℚ) / d < 1 / 2 := by
        rw [div_lt_div_iff₀ hden two_pos]
        have := Nat.compare_eq_lt.mp hhalf
        exact_mod_cast (by omega : rest * 2 < 1 * d)
      show (whole : ℚ) < _ ∧ _ < (whole : ℚ) + 1 / 2
      constructor <;> linarith
    | eq =>
      have heq : (rest : ℚ) / d = 1 / 2 := by
        rw [div_eq_div_iff hden.ne' two_ne_zero]
        have := Nat.compare_eq_eq.mp hhalf
        exact_mod_cast (by omega : rest * 2 = 1 * d)
      show _ = (whole : ℚ) + 1 / 2
      rw [heq]
    | gt =>
      have hhigh : 1 / 2 < (rest : ℚ) / d := by
        rw [div_lt_div_iff₀ two_pos hden]
        have := Nat.compare_eq_gt.mp hhalf
        exact_mod_cast (by omega : 1 * d < rest * 2)
      show (whole : ℚ) + 1 / 2 < _ ∧ _ < (whole : ℚ) + 1
      constructor <;> linarith

/-! ## §2 Packing -/

/-- A mantissa that fits, and fills its bits unless the exponent is the least, is packed into the
bits of its number of units. What is too large is packed into those of infinity. -/
theorem toNat_pack (s : Sign) {m : Nat} {e : Int} (hm : 0 < m) (hlt : m < 2 ^ 53)
    (he : -1074 ≤ e) (hfull : e = -1074 ∨ 2 ^ 52 ≤ m) :
    (pack .binary64 (.finite s m e hm)).toNat
      = s.toBitVec.toNat * 2 ^ 63
        + min Quotient.infinityBits ((e + 1074).toNat * 2 ^ 52 + m) := by
  rw [Quotient.infinityBits]
  have hlog : m.log2 = 52 ↔ 2 ^ 52 ≤ m := by
    rw [Nat.log2_eq_iff (by omega)]
    omega
  simp only [pack]
  split
  · rename_i hlarge
    have hlarge : 2048 ≤ (e + 1023 + 52).toNat + 1 := hlarge
    rw [packedInfinity, toNat_packComponents]
    show _ * _ + 2047 * 2 ^ 52 + 0 = _
    omega
  · rename_i hlarge
    have hlarge : ¬ 2048 ≤ (e + 1023 + 52).toNat + 1 := hlarge
    split
    · rename_i hnormal
      have hnormal : m.log2 + 1 = 53 := hnormal
      rw [toNat_packComponents]
      show _ * _ + (e + 1023 + 52).toNat % 2 ^ 11 * _ + m % 2 ^ 52 = _
      omega
    · rename_i hleast
      have hleast : m.log2 + 1 ≠ 53 := hleast
      rw [toNat_packComponents]
      show _ * _ + 0 * _ + m % 2 ^ 52 = _
      omega

/-- What rounding makes of a mantissa and an exponent in the end. -/
def ofShifted (s : Sign) (shifted : ExtendedMantissa × Int) : UnpackedFloat :=
  if h : shifted.1.mantissa = 0 then .zero s
  else .finite s shifted.1.mantissa shifted.2 (Nat.pos_of_ne_zero h)

theorem toNat_pack_ofShifted (s : Sign) {m : Nat} {e : Int} (hlt : m < 2 ^ 53) (he : -1074 ≤ e)
    (hfull : e = -1074 ∨ 2 ^ 52 ≤ m) :
    (pack .binary64 (ofShifted s (⟨m, false, false⟩, e))).toNat
      = s.toBitVec.toNat * 2 ^ 63
        + min Quotient.infinityBits ((e + 1074).toNat * 2 ^ 52 + m) := by
  rw [ofShifted]
  split
  · rename_i hzero
    have hzero : m = 0 := hzero
    rw [pack, packedZero, toNat_packComponents, Quotient.infinityBits]
    show _ * _ + 0 * _ + 0 = _
    omega
  · exact toNat_pack s _ hlt he hfull

theorem shift_eq_of_targetExponent {m k : Nat} {e : Int}
    (h : (max ((m.log2 : Int) + 1 + e - 53) (-1074) - e).toNat = k) :
    shiftToTargetExponent .binary64 m e .exact
      = (ExtendedMantissa.ofMantissaAndAccuracy m .exact >>> k, e + k) := by
  have htarget : Format.targetExponent .binary64 (totalExponent m e)
      = max ((m.log2 : Int) + 1 + e - 53) (-1074) := rfl
  rw [shiftToTargetExponent, htarget, shiftToExponent, h]

/-- A mantissa that fits is not shifted. -/
theorem shift_of_lt {m : Nat} {e : Int} (hlt : m < 2 ^ 53) (he : -1074 ≤ e) :
    shiftToTargetExponent .binary64 m e .exact = (⟨m, false, false⟩, e) := by
  have hlog : m.log2 ≤ 52 := by
    rcases Nat.eq_zero_or_pos m with rfl | hpos
    · exact Nat.zero_le _
    · exact Nat.le_of_lt_succ ((Nat.log2_lt hpos.ne').mpr hlt)
  rw [shift_eq_of_targetExponent (k := 0) (by omega), Nat.cast_zero, add_zero]
  rfl

/-- One that rounding has carried over is a power of two, and shifted by one. -/
theorem shift_of_carry {e : Int} (he : -1074 ≤ e) :
    shiftToTargetExponent .binary64 (2 ^ 53) e .exact = (⟨2 ^ 52, false, false⟩, e + 1) := by
  have hlog : (2 ^ 53 : Nat).log2 = 53 := Nat.log2_two_pow
  rw [shift_eq_of_targetExponent (k := 1) (by omega)]
  rfl

/-- The mantissa tells the power of two below a number. -/
theorem Quotient.binaryExponent_eq {v : Quotient} (hv : v.IsPositive) {m : Nat} {e : Int}
    (hm : 0 < m) (hlow : m * (2 : ℚ) ^ e ≤ v.value) (hhigh : v.value < (m + 1) * (2 : ℚ) ^ e) :
    v.binaryExponent = m.log2 + e := by
  refine exponent_unique one_lt_two (binaryExponent_spec hv) ⟨?_, ?_⟩
  · refine le_trans ?_ hlow
    rw [zpow_add₀ two_ne_zero, zpow_natCast]
    gcongr
    exact_mod_cast Nat.log2_self_le hm.ne'
  · refine hhigh.trans_le ?_
    rw [show (m.log2 : Int) + e + 1 = ((m.log2 + 1 : Nat) : Int) + e by push_cast; ring,
      zpow_add₀ two_ne_zero, zpow_natCast]
    gcongr
    exact_mod_cast Nat.succ_le_of_lt (Nat.lt_log2_self (n := m))

/-- The number is a mantissa of units of a power of two, with what its bits say is behind it. The
unit is not greater than the one to which the number is rounded. -/
structure HasMantissa (v : Quotient) (m : Nat) (e : Int) (accuracy : Accuracy) : Prop where
  isPositive : v.IsPositive
  describes : Describes (.ofMantissaAndAccuracy m accuracy) (v.value * (2 : ℚ) ^ (-e))
  le_unitExponent : e ≤ v.unitExponent
  /-- A mantissa without bits has the least unit. -/
  some_bit : m = 0 → e ≤ -1074

namespace HasMantissa

variable {v : Quotient} {m : Nat} {e : Int} {accuracy : Accuracy}

theorem mantissa_bounds (h : HasMantissa v m e accuracy) :
    m * (2 : ℚ) ^ e ≤ v.value ∧ v.value < (m + 1) * (2 : ℚ) ^ e := by
  have hbounds := h.describes.bounds
  rw [mantissa_ofMantissaAndAccuracy] at hbounds
  have hpos : (0 : ℚ) < 2 ^ e := by positivity
  rw [zpow_neg, ← div_eq_mul_inv, le_div_iff₀ hpos, div_lt_iff₀ hpos] at hbounds
  exact hbounds

/-- The exponent that the mantissa is shifted to is that of the unit. -/
theorem targetExponent_eq (h : HasMantissa v m e accuracy) :
    Format.targetExponent .binary64 (totalExponent m e) = v.unitExponent := by
  obtain ⟨hlow, hhigh⟩ := h.mantissa_bounds
  have htarget : Format.targetExponent .binary64 (totalExponent m e)
      = max ((m.log2 : Int) + 1 + e - 53) (-1074) := rfl
  have hunit : v.unitExponent = max (-1074) (v.binaryExponent - 52) := rfl
  rw [htarget, hunit]
  rcases Nat.eq_zero_or_pos m with rfl | hpos
  · have hleast := h.some_bit rfl
    obtain ⟨hbelow, -⟩ := Quotient.binaryExponent_spec h.isPositive
    rw [Nat.cast_zero, zero_add, one_mul] at hhigh
    have hexponent := (zpow_lt_zpow_iff_right₀ one_lt_two).mp (hbelow.trans_lt hhigh)
    rw [Nat.log2_zero]
    omega
  · rw [Quotient.binaryExponent_eq h.isPositive hpos hlow hhigh]
    omega

/-- Shifted to the unit, the mantissa is rounded to the nearest number of units. -/
theorem shift_eq (h : HasMantissa v m e accuracy) :
    (shiftToTargetExponent .binary64 m e accuracy).1.roundedMantissa = v.units
      ∧ (shiftToTargetExponent .binary64 m e accuracy).2 = v.unitExponent := by
  have hle := h.le_unitExponent
  simp only [shiftToTargetExponent, h.targetExponent_eq, shiftToExponent]
  refine ⟨?_, by omega⟩
  have hshift := h.describes.shiftRight (v.unitExponent - e).toNat
  refine hshift.isNearest.unique ?_
  have hscale : v.value * (2 : ℚ) ^ (-e) / 2 ^ (v.unitExponent - e).toNat
      = v.value * (2 : ℚ) ^ (-v.unitExponent) := by
    rw [mul_div_assoc, ← zpow_natCast, ← zpow_sub₀ two_ne_zero]
    congr 2
    omega
  rw [hscale]
  exact Quotient.isNearest_units h.isPositive

/-- **What is packed has the bits of the double that is nearest to the exact number**, below the
sign. -/
theorem toNat_pack_round (h : HasMantissa v m e accuracy) (s : Sign) :
    (pack .binary64 (roundWithAccuracy .binary64 s m e accuracy)).toNat
      = s.toBitVec.toNat * 2 ^ 63 + v.nearestBits := by
  obtain ⟨hunits, hexponent⟩ := h.shift_eq
  have hleast := Quotient.le_unitExponent v
  have hround : roundWithAccuracy .binary64 s m e accuracy
      = ofShifted s (shiftToTargetExponent .binary64 v.units v.unitExponent .exact) := by
    rw [← hunits, ← hexponent]
    rfl
  have hle : v.units ≤ 2 ^ 53 :=
    Quotient.units_le h.isPositive (by exact_mod_cast (Quotient.value_units_lt h.isPositive).le)
  have hfull : v.unitExponent = -1074 ∨ 2 ^ 52 ≤ v.units := by
    by_cases heq : v.unitExponent = -1074
    · exact .inl heq
    · exact .inr (Quotient.le_units h.isPositive
        (by exact_mod_cast Quotient.le_value_units h.isPositive heq))
  rw [hround, Quotient.nearestBits_eq]
  rcases Nat.lt_or_eq_of_le hle with hlt | hcarry
  · rw [shift_of_lt hlt hleast]
    exact toNat_pack_ofShifted s hlt hleast hfull
  · have hpack := toNat_pack_ofShifted (m := 2 ^ 52) (e := v.unitExponent + 1) s (by norm_num)
      (by omega) (.inr le_rfl)
    rw [hcarry, shift_of_carry hleast, hpack]
    omega

/-- **What is rounded is the exact number, to the nearest double.** -/
theorem ofModel_pack_round (h : HasMantissa v m e accuracy) (s : Sign) :
    Float.ofModel (.pack (roundWithAccuracy .binary64 s m e accuracy))
      = match s with | .positive => v.toFloat | .negative => -v.toFloat := by
  have hle : v.nearestBits ≤ Quotient.infinityBits := Nat.min_le_left _ _
  have hbits : v.toFloat.toBits.toNat = v.nearestBits := by
    rw [Quotient.toFloat_eq h.isPositive, toBits_ofNat hle]
  refine toBits_injective (UInt64.toNat_inj.mp ?_)
  refine (h.toNat_pack_round s).trans ?_
  rw [Quotient.infinityBits] at hle
  cases s with
  | positive => simp [hbits, Sign.toBitVec]
  | negative =>
    rw [toBits_neg (by rw [hbits, IsOrdered]; omega), hbits]
    show 1 * _ + _ = _
    omega

end HasMantissa

/-! ## §3 Rounding -/

/-- A number with a sign in front. -/
def signed (s : Sign) (q : ℚ) : ℚ :=
  match s with
  | .positive => q
  | .negative => -q

theorem signed_mul (s t : Sign) (q r : ℚ) : signed (s * t) (q * r) = signed s q * signed t r := by
  cases s <;> cases t
  · exact (neg_mul_neg q r).symm
  · exact (neg_mul q r).symm
  · exact (mul_neg q r).symm
  · rfl

theorem abs_neg_sub (a q : ℚ) : |-a - q| = |a - -q| := by
  rw [← abs_neg]
  congr 1
  ring

theorem exactValue_finite {x : Float} {s : Sign} {m : Nat} {e : Int} {hm : 0 < m}
    (h : x.toModel.unpack = .finite s m e hm) : exactValue x = signed s (m * (2 : ℚ) ^ e) := by
  rw [exactValue, h]
  cases s <;> rfl

theorem isFinite_neg {x : Float} (h : x.isFinite = true) : (-x).isFinite = true := by
  obtain ⟨b, hb, -, -⟩ := exists_of_isFinite h
  exact Binary.isFinite_of_ofFloat? (Binary.ofFloat?_neg hb)

theorem exactValue_neg {x : Float} (h : x.isFinite = true) : exactValue (-x) = -exactValue x := by
  obtain ⟨b, hb, -, hvalue⟩ := exists_of_isFinite h
  rw [hvalue, Binary.exactValue_eq (Binary.ofFloat?_neg hb), Binary.signed, Binary.signed]
  cases hsign : b.negative <;> simp [Binary.opposite, Binary.value, hsign]

/-- A number is rounded to the nearest double of its magnitude, and keeps its sign. -/
inductive RoundsTo (q : ℚ) : Float → Prop
  | positive {x : Float} (hq : 0 ≤ q) (h : IsNearestDouble q x) : RoundsTo q x
  | negative {x : Float} (hq : q ≤ 0) (h : IsNearestDouble (-q) x) : RoundsTo q (-x)

theorem HasMantissa.roundsTo {v : Quotient} {m : Nat} {e : Int} {accuracy : Accuracy}
    (h : HasMantissa v m e accuracy) (s : Sign) :
    RoundsTo (signed s v.value)
      (Float.ofModel (.pack (roundWithAccuracy .binary64 s m e accuracy))) := by
  have hpos := Quotient.value_pos h.isPositive
  have hnearest := Quotient.isNearestDouble_toFloat h.isPositive
  rw [h.ofModel_pack_round s]
  cases s with
  | positive => exact .positive hpos.le hnearest
  | negative => exact .negative (neg_nonpos.mpr hpos.le) (by rwa [signed, neg_neg])

theorem isFinite_zero : (0.0 : Float).isFinite = true := by rfl

theorem isFinite_one : (1.0 : Float).isFinite = true := by rfl

theorem exactValue_one : exactValue 1.0 = 1 := by
  have hunpack : (1.0 : Float).toModel.unpack = .finite .positive (2 ^ 52) (-52) (by decide) := by
    rfl
  rw [exactValue_finite hunpack, signed]
  norm_num

theorem roundsTo_zero (s : Sign) : RoundsTo 0 (Float.ofModel (.pack (.zero s))) := by
  have hzero : IsNearestDouble 0 0.0 := isNearestDouble_zero le_rfl (by rw [mul_zero]; positivity)
  cases s with
  | positive => exact .positive le_rfl hzero
  | negative => exact .negative le_rfl (by rwa [neg_zero])

/-- What is left of the error of a quotient: half a unit. -/
theorem IsNearestDouble.abs_error_le {q : ℚ} {x : Float} (h : IsNearestDouble q x) (hq : 0 ≤ q)
    (hrange : q < Quotient.overflow) :
    |exactValue x - q| ≤ max (q / 2 ^ 53) (2 ^ (-1075 : Int)) := by
  rcases hq.eq_or_lt with rfl | hpos
  · rw [eq_zero_of_isNearestDouble h, exactValue_zero, sub_zero, abs_zero]
    positivity
  · -- the number as a quotient
    obtain ⟨v, hv, rfl⟩ : ∃ v : Quotient, v.IsPositive ∧ v.value = q := by
      have hnum := Rat.num_pos.mpr hpos
      refine ⟨⟨q.num.toNat, q.den⟩, ⟨by show 0 < q.num.toNat; omega, q.den_pos⟩, ?_⟩
      rw [Quotient.value, ← Int.cast_natCast, Int.toNat_of_nonneg hnum.le, Rat.num_div_den]
    obtain ⟨-, -, hvalue, -⟩ := Quotient.toFloat_spec hv hrange
    rw [Quotient.eq_toFloat hv h, hvalue]
    refine (Quotient.abs_error_le hv).trans ?_
    by_cases hleast : v.unitExponent = -1074
    · rw [hleast]
      refine le_max_of_le_right (le_of_eq ?_)
      rw [show (-1075 : Int) = -1074 - 1 by norm_num, zpow_sub_one₀ two_ne_zero]
      ring
    · refine le_max_of_le_left ?_
      rw [le_div_iff₀ (by positivity)]
      linarith [Quotient.le_value_units hv hleast]

/-- The error of a double next to zero is small. -/
theorem half_least_le : (2 : ℚ) ^ (-1075 : Int) ≤ 1 / 2 ^ 60 :=
  (zpow_le_zpow_right₀ one_le_two (by norm_num : (-1075 : Int) ≤ -60)).trans (by norm_num)

namespace RoundsTo

variable {q : ℚ} {x y : Float}

theorem isFinite (h : RoundsTo q x) (hq : |q| < Quotient.overflow) : x.isFinite = true := by
  cases h with
  | positive hsign h =>
    rw [abs_of_nonneg hsign] at hq
    cases h with
    | finite _ hfinite => exact hfinite
    | infinite hrange => exact absurd hq hrange.not_gt
  | negative hsign h =>
    rw [abs_of_nonpos hsign] at hq
    cases h with
    | finite _ hfinite => exact isFinite_neg hfinite
    | infinite hrange => exact absurd hq hrange.not_gt

/-- What is beyond the greatest double is infinite. -/
theorem eq_infinity (h : RoundsTo q x) (hq : Quotient.overflow ≤ |q|) : x = infinity (q < 0) := by
  have hpos : 0 < Quotient.overflow := lt_of_lt_of_le (by positivity) Quotient.le_overflow
  cases h with
  | positive hsign h =>
    rw [abs_of_nonneg hsign] at hq
    cases h with
    | finite hrange => exact absurd hq hrange.not_ge
    | infinite hrange => rw [decide_eq_false hsign.not_gt]
  | negative hsign h =>
    rw [abs_of_nonpos hsign] at hq
    cases h with
    | finite hrange => exact absurd hq hrange.not_ge
    | infinite hrange =>
      rw [decide_eq_true (by linarith)]
      rfl

/-- No double is nearer. -/
theorem abs_sub_le (h : RoundsTo q x) (hq : |q| < Quotient.overflow) (hy : y.isFinite = true) :
    |exactValue x - q| ≤ |exactValue y - q| := by
  cases h with
  | positive hsign h =>
    rw [abs_of_nonneg hsign] at hq
    cases h with
    | finite _ _ _ hnear => exact hnear y hy
    | infinite hrange => exact absurd hq hrange.not_gt
  | negative hsign h =>
    rw [abs_of_nonpos hsign] at hq
    cases h with
    | finite _ hfinite _ hnear =>
      have hle := hnear (-y) (isFinite_neg hy)
      rw [exactValue_neg hy, abs_neg_sub, neg_neg] at hle
      rwa [exactValue_neg hfinite, abs_neg_sub]
    | infinite hrange => exact absurd hq hrange.not_gt

/-- The error is small beside the number, or beside the least positive double. -/
theorem abs_error_le (h : RoundsTo q x) (hq : |q| < Quotient.overflow) :
    |exactValue x - q| ≤ max (|q| / 2 ^ 53) (2 ^ (-1075 : Int)) := by
  cases h with
  | positive hsign h =>
    rw [abs_of_nonneg hsign] at hq ⊢
    exact h.abs_error_le hsign hq
  | @negative x hsign h =>
    rw [abs_of_nonpos hsign] at hq ⊢
    have hfinite : x.isFinite = true := by
      cases h with
      | finite _ hfinite => exact hfinite
      | infinite hrange => exact absurd hq hrange.not_gt
    rw [exactValue_neg hfinite, abs_neg_sub]
    exact h.abs_error_le (neg_nonneg.mpr hsign) hq

/-- Rounding does not pass a double. -/
theorem le_of_le (h : RoundsTo q x) (hq : |q| < Quotient.overflow) (hy : y.isFinite = true)
    (hle : q ≤ exactValue y) : exactValue x ≤ exactValue y := by
  have hnear := h.abs_sub_le hq hy
  rw [abs_of_nonneg (sub_nonneg.mpr hle)] at hnear
  linarith [le_abs_self (exactValue x - q)]

theorem ge_of_ge (h : RoundsTo q x) (hq : |q| < Quotient.overflow) (hy : y.isFinite = true)
    (hge : exactValue y ≤ q) : exactValue y ≤ exactValue x := by
  have hnear := h.abs_sub_le hq hy
  rw [abs_of_nonpos (sub_nonpos.mpr hge)] at hnear
  linarith [neg_abs_le (exactValue x - q)]

end RoundsTo

theorem abs_exactValue_lt {x : Float} (h : x.isFinite = true) :
    |exactValue x| < Quotient.overflow := by
  obtain ⟨b, -, hb, hvalue⟩ := exists_of_isFinite h
  rw [hvalue, Binary.abs_signed]
  exact hb.value_le.trans_lt Quotient.greatest_lt_overflow

theorem isOrdered_of_isFinite {x : Float} (h : x.isFinite = true) : IsOrdered x.toBits.toNat :=
  fun hfield => absurd hfield ((isFinite_iff_field x).mp h)

theorem neg_neg_of_isFinite {x : Float} (h : x.isFinite = true) : -(-x) = x := by
  have hbits := x.toBits.toBitVec.isLt
  rw [UInt64.toNat_toBitVec] at hbits
  refine toBits_injective (UInt64.toNat_inj.mp ?_)
  rw [toBits_neg (isOrdered_of_isFinite (isFinite_neg h)),
    toBits_neg (isOrdered_of_isFinite h)]
  omega

theorem isNearestDouble_self {x : Float} (h : x.isFinite = true) (hsign : isNegative x = false) :
    IsNearestDouble (exactValue x) x := by
  refine .finite ((le_abs_self _).trans_lt (abs_exactValue_lt h)) h hsign (fun y _ => ?_)
    fun y _ hne htie => ?_
  · rw [sub_self, abs_zero]
    exact abs_nonneg _
  · rw [sub_self, abs_zero, abs_eq_zero, sub_eq_zero] at htie
    exact absurd htie hne

/-- A double is rounded to itself. -/
theorem roundsTo_self {x : Float} (h : x.isFinite = true) : RoundsTo (exactValue x) x := by
  cases hsign : isNegative x with
  | false =>
    obtain ⟨b, -, hvalue, -⟩ := exists_normal h hsign
    exact .positive (hvalue ▸ b.value_nonneg) (isNearestDouble_self h hsign)
  | true =>
    have hsign' : isNegative (-x) = false := by
      rw [isNegative, pow2_eq, beq_iff_eq] at hsign
      rw [isNegative, pow2_eq, toBits_neg (isOrdered_of_isFinite h), beq_eq_false_iff_ne]
      omega
    obtain ⟨b, -, hvalue, -⟩ := exists_normal (isFinite_neg h) hsign'
    have hself := isNearestDouble_self (isFinite_neg h) hsign'
    rw [exactValue_neg h] at hvalue hself
    have hround := RoundsTo.negative (by linarith [b.value_nonneg]) hself
    rwa [neg_neg_of_isFinite h] at hround

/-- A finite double is a whole number of least units. -/
theorem exists_units {x : Float} (h : x.isFinite = true) :
    ∃ k : Int, exactValue x = k * (2 : ℚ) ^ (-1074 : Int) := by
  obtain ⟨b, -, hb, hvalue⟩ := exists_of_isFinite h
  have hunits := Quotient.value_eq_units b hb.le_exponent
  rw [hvalue, Binary.signed, hunits]
  split
  · exact ⟨-(b.mantissa * 2 ^ (b.exponent - -1074).toNat : Nat), by
      rw [Int.cast_neg, Int.cast_natCast, neg_mul]⟩
  · exact ⟨(b.mantissa * 2 ^ (b.exponent - -1074).toNat : Nat), by rw [Int.cast_natCast]⟩

/-- Two doubles that differ are at least a least unit apart. -/
theorem add_least_le {x y : Float} (hx : x.isFinite = true) (hy : y.isFinite = true)
    (h : exactValue x < exactValue y) : exactValue x + 2 ^ (-1074 : Int) ≤ exactValue y := by
  obtain ⟨k, hk⟩ := exists_units hx
  obtain ⟨l, hl⟩ := exists_units hy
  have hpos : (0 : ℚ) < 2 ^ (-1074 : Int) := by positivity
  rw [hk, hl, mul_lt_mul_iff_left₀ hpos] at h
  have hstep : (k : ℚ) + 1 ≤ l := by exact_mod_cast (by exact_mod_cast h : k < l)
  calc exactValue x + 2 ^ (-1074 : Int) = (k + 1) * 2 ^ (-1074 : Int) := by
        rw [hk, add_mul, one_mul]
    _ ≤ l * 2 ^ (-1074 : Int) := by gcongr
    _ = exactValue y := hl.symm

/-! ## §4 Operations -/

/-- The two ways a finite double is unpacked. -/
theorem unpack_cases {x : Float} (h : x.isFinite = true) :
    (∃ s, x.toModel.unpack = .zero s ∧ exactValue x = 0)
      ∨ ∃ s m e hm, x.toModel.unpack = .finite s m e hm
        ∧ exactValue x = signed s (m * (2 : ℚ) ^ e) ∧ (⟨false, m, e⟩ : Binary).IsNormal := by
  have hunpacked : x.toModel.unpack.isFinite = true := h
  cases hx : x.toModel.unpack with
  | notANumber => rw [hx] at hunpacked; cases hunpacked
  | infinity s => rw [hx] at hunpacked; cases hunpacked
  | zero s => exact .inl ⟨s, rfl, exactValue_none hx⟩
  | finite s m e hm => exact .inr ⟨s, m, e, hm, rfl, exactValue_finite hx, isNormal_of_unpack hx _⟩

theorem signed_div (s t : Sign) (q r : ℚ) : signed (s / t) (q / r) = signed s q / signed t r := by
  cases s <;> cases t
  · exact (neg_div_neg_eq q r).symm
  · exact (neg_div r q).symm
  · exact (div_neg q).symm
  · rfl

/-- A whole number of units is exact. -/
theorem hasMantissa_exact {m : Nat} {e : Int} (hm : 0 < m)
    (he : e ≤ max ((m.log2 : Int) + 1 + e - 53) (-1074)) :
    HasMantissa (.ofBinary ⟨false, m, e⟩) m e .exact where
  isPositive := Quotient.isPositive_ofBinary hm
  describes := by
    rw [Quotient.value_ofBinary, Binary.value, zpow_neg, mul_inv_cancel_right₀ (by positivity)]
    exact describes_exact m
  le_unitExponent := by
    have hvalue : (Quotient.ofBinary ⟨false, m, e⟩).value = m * (2 : ℚ) ^ e :=
      Quotient.value_ofBinary _
    have hpos : (0 : ℚ) < 2 ^ e := by positivity
    have hexponent := Quotient.binaryExponent_eq (Quotient.isPositive_ofBinary hm) hm hvalue.ge
      (by rw [hvalue]; linarith)
    have hunit : (Quotient.ofBinary ⟨false, m, e⟩).unitExponent
        = max (-1074) ((Quotient.ofBinary ⟨false, m, e⟩).binaryExponent - 52) := rfl
    rw [hunit, hexponent]
    omega
  some_bit := fun hzero => absurd hzero hm.ne'

/-- A product of finite doubles is rounded once. -/
theorem mul_roundsTo {x y : Float} (hx : x.isFinite = true) (hy : y.isFinite = true) :
    RoundsTo (exactValue x * exactValue y) (x * y) := by
  have hmul : x * y = Float.ofModel (.pack (mul .binary64 x.toModel.unpack y.toModel.unpack)) := rfl
  rw [hmul]
  obtain ⟨s, hxs, hxvalue⟩ | ⟨s, m, e, hm, hxs, hxvalue, hxnormal⟩ := unpack_cases hx
  · rw [hxs, hxvalue, zero_mul]
    obtain ⟨t, hyt, -⟩ | ⟨t, n, f, hn, hyt, -, -⟩ := unpack_cases hy <;> rw [hyt]
    · exact roundsTo_zero (s * t)
    · exact roundsTo_zero (s * t)
  · rw [hxs, hxvalue]
    obtain ⟨t, hyt, hyvalue⟩ | ⟨t, n, f, hn, hyt, hyvalue, hynormal⟩ := unpack_cases hy
    · rw [hyt, hyvalue, mul_zero]
      exact roundsTo_zero (s * t)
    · rw [hyt, hyvalue, ← signed_mul]
      have hle : e + f ≤ max (((m * n).log2 : Int) + 1 + (e + f) - 53) (-1074) := by
        have hfull {a b : Nat} (ha : 2 ^ 52 ≤ a) (hb : 0 < b) : 52 ≤ (a * b).log2 :=
          (Nat.le_log2 (by positivity)).mpr (ha.trans (Nat.le_mul_of_pos_right a hb))
        have hxfull : e = -1074 ∨ 2 ^ 52 ≤ m := hxnormal.full
        have hyfull : f = -1074 ∨ 2 ^ 52 ≤ n := hynormal.full
        rcases hxfull with rfl | hfirst
        · rcases hyfull with rfl | hsecond
          · omega
          · have hlog := hfull hsecond hm
            rw [mul_comm] at hlog
            omega
        · have hlog := hfull hfirst hn
          omega
      have hround := (hasMantissa_exact (Nat.mul_pos hm hn) hle).roundsTo (s * t)
      rw [Quotient.value_ofBinary, Binary.value, zpow_add₀ two_ne_zero] at hround
      push_cast at hround
      rwa [mul_mul_mul_comm] at hround

/-- The mantissa of a quotient has all bits of a double, and one or two more. -/
theorem hasMantissa_divCore {m n : Nat} (hm : 0 < m) (hn : 0 < n) (e f : Int) :
    HasMantissa (Quotient.shift ⟨m, n⟩ (e - f)) (divCore .binary64 m e n f).1
      (divCore .binary64 m e n f).2.1 (divCore .binary64 m e n f).2.2 := by
  let t : Int := min (e - f) (max ((m.log2 : Int) + 1 + e - (n.log2 + 1 + f) - 53) (-1074))
  let k := (e - f - t).toNat
  have hpositive : (Quotient.shift ⟨m, n⟩ (e - f)).IsPositive :=
    Quotient.IsPositive.shift ⟨hm, hn⟩ _
  have hvalue : (Quotient.shift ⟨m, n⟩ (e - f)).value = (m : ℚ) / n * 2 ^ (e - f) :=
    Quotient.value_shift _ _
  show HasMantissa _ (m <<< k / n) t (accuracyOfFraction (m <<< k % n) n)
  refine ⟨hpositive, ?_, ?_, ?_⟩
  · have hshifted : (m : ℚ) / n * 2 ^ (e - f) * 2 ^ (-t) = ((m <<< k : Nat) : ℚ) / n := by
      rw [Nat.shiftLeft_eq, mul_assoc, ← zpow_add₀ two_ne_zero, div_mul_eq_mul_div]
      push_cast
      rw [← zpow_natCast, show e - f + -t = (k : Int) by omega]
    rw [hvalue, hshifted]
    exact describes_fraction _ hn
  · have hlow : (2 : ℚ) ^ ((m.log2 : Int) - (n.log2 + 1) + (e - f))
        ≤ (Quotient.shift ⟨m, n⟩ (e - f)).value := by
      rw [hvalue, zpow_add₀ two_ne_zero, zpow_sub₀ two_ne_zero]
      gcongr
      · exact_mod_cast Nat.log2_self_le hm.ne'
      · exact_mod_cast (Nat.lt_log2_self (n := n)).le
    have hexponent := (zpow_lt_zpow_iff_right₀ one_lt_two).mp
      (hlow.trans_lt (Quotient.binaryExponent_spec hpositive).2)
    have hunit : (Quotient.shift ⟨m, n⟩ (e - f)).unitExponent
        = max (-1074) ((Quotient.shift ⟨m, n⟩ (e - f)).binaryExponent - 52) := rfl
    rw [hunit]
    omega
  · intro hnone
    by_contra hlarge
    have hk : n.log2 + 1 ≤ m.log2 + k := by omega
    have hle : n ≤ m <<< k := by
      rw [Nat.shiftLeft_eq]
      calc n ≤ 2 ^ (n.log2 + 1) := (Nat.lt_log2_self (n := n)).le
        _ ≤ 2 ^ (m.log2 + k) := Nat.pow_le_pow_right two_pos hk
        _ = 2 ^ m.log2 * 2 ^ k := Nat.pow_add _ _ _
        _ ≤ m * 2 ^ k := Nat.mul_le_mul_right _ (Nat.log2_self_le hm.ne')
    rcases Nat.div_eq_zero_iff.mp hnone with hzero | hlt <;> omega

/-- A quotient of finite doubles is rounded once. -/
theorem div_roundsTo {x y : Float} (hx : x.isFinite = true) (hy : y.isFinite = true)
    (hne : exactValue y ≠ 0) : RoundsTo (exactValue x / exactValue y) (x / y) := by
  have hdiv : x / y = Float.ofModel (.pack (div .binary64 x.toModel.unpack y.toModel.unpack)) := rfl
  rw [hdiv]
  obtain ⟨t, -, hyvalue⟩ | ⟨t, n, f, hn, hyt, hyvalue, -⟩ := unpack_cases hy
  · exact absurd hyvalue hne
  rw [hyt, hyvalue]
  obtain ⟨s, hxs, hxvalue⟩ | ⟨s, m, e, hm, hxs, hxvalue, -⟩ := unpack_cases hx
  · rw [hxs, hxvalue, zero_div]
    exact roundsTo_zero (s / t)
  · rw [hxs, hxvalue, ← signed_div]
    have hround := (hasMantissa_divCore hm hn e f).roundsTo (s / t)
    rwa [Quotient.value_shift, Quotient.value, zpow_sub₀ two_ne_zero, div_mul_div_comm] at hround

/-- An unpacked double is packed into itself. -/
theorem ofModel_pack_unpack {x : Float} (h : x.isFinite = true) :
    Float.ofModel (.pack x.toModel.unpack) = x :=
  toBits_injective (toBits_ofBits (isOrdered_of_isFinite h))

/-- A mantissa with few bits is exact, and so is the one with the bits filled up. -/
theorem round_roundsTo (s : Sign) {m : Nat} (hm : 0 < m) (e : Int) :
    RoundsTo (signed s (m * (2 : ℚ) ^ e))
      (Float.ofModel (.pack (UnpackedFloat.round .binary64 s m e))) := by
  let k := (e - max ((m.log2 : Int) + 1 + e - 53) (-1074)).toNat
  have hshift : 0 < m <<< k := by
    rw [Nat.shiftLeft_eq]
    positivity
  have hlog : (m <<< k).log2 = m.log2 + k := by
    rw [Nat.log2_eq_iff hshift.ne', Nat.shiftLeft_eq, show m.log2 + k + 1 = m.log2 + 1 + k by omega,
      Nat.pow_add, Nat.pow_add]
    exact ⟨Nat.mul_le_mul_right _ (Nat.log2_self_le hm.ne'),
      Nat.mul_lt_mul_of_pos_right Nat.lt_log2_self (Nat.two_pow_pos k)⟩
  have hround := (hasMantissa_exact (e := e - k) hshift (by omega)).roundsTo s
  have hvalue : ((m <<< k : Nat) : ℚ) * 2 ^ (e - k) = m * 2 ^ e := by
    rw [Nat.shiftLeft_eq, zpow_sub₀ two_ne_zero, zpow_natCast]
    push_cast
    field_simp
  rwa [Quotient.value_ofBinary, Binary.value, hvalue] at hround

theorem normalize_roundsTo (d e : Int) (s : Sign) :
    RoundsTo (d * (2 : ℚ) ^ e)
      (Float.ofModel (.pack (UnpackedFloat.normalize .binary64 d e s))) := by
  unfold UnpackedFloat.normalize
  split
  · rename_i hlt
    have hlt : d < 0 := Int.compare_eq_lt.mp hlt
    have hround := round_roundsTo .negative (m := (-d).toNat) (by omega) e
    rwa [signed, ← Int.cast_natCast, Int.toNat_of_nonneg (by omega), Int.cast_neg, neg_mul,
      neg_neg] at hround
  · rename_i heq
    rw [Int.compare_eq_eq.mp heq, Int.cast_zero, zero_mul]
    exact roundsTo_zero s
  · rename_i hgt
    have hgt : 0 < d := Int.compare_eq_gt.mp hgt
    have hround := round_roundsTo .positive (m := d.toNat) (by omega) e
    rwa [signed, ← Int.cast_natCast, Int.toNat_of_nonneg (by omega)] at hround

/-- A mantissa in smaller units. -/
theorem apply_decreaseExponent (s : Sign) (m : Nat) {e g : Int} (hle : g ≤ e) :
    ((s.apply ((decreaseExponent m e g).1 : Nat) : Int) : ℚ) * 2 ^ g
      = signed s (m * (2 : ℚ) ^ e) := by
  have hvalue : (((decreaseExponent m e g).1 : Nat) : ℚ) * 2 ^ g = m * (2 : ℚ) ^ e := by
    rw [decreaseExponent, Nat.shiftLeft_eq]
    push_cast
    rw [mul_assoc, ← zpow_natCast, ← zpow_add₀ two_ne_zero, Int.toNat_of_nonneg (by omega),
      sub_add_cancel]
  cases s with
  | positive => simpa [Sign.apply, signed] using hvalue
  | negative => simpa [Sign.apply, signed] using hvalue

/-- A difference of finite doubles is rounded once. -/
theorem sub_roundsTo {x y : Float} (hx : x.isFinite = true) (hy : y.isFinite = true) :
    RoundsTo (exactValue x - exactValue y) (x - y) := by
  have hsub : x - y = Float.ofModel (.pack (sub .binary64 x.toModel.unpack y.toModel.unpack)) := rfl
  obtain ⟨s, hxs, hxvalue⟩ | ⟨s, m, e, hm, hxs, hxvalue, -⟩ := unpack_cases hx
  · obtain ⟨t, hyt, hyvalue⟩ | ⟨t, n, f, hn, hyt, -, -⟩ := unpack_cases hy
    · rw [hsub, hxs, hxvalue, hyt, hyvalue, sub_zero]
      cases s <;> cases t <;> exact roundsTo_zero _
    · have hneg : x - y = -y := by
        rw [hsub, hxs, hyt]
        show Float.ofModel (.pack (UnpackedFloat.neg (.finite t n f hn))) = _
        rw [← hyt]
        rfl
      rw [hneg, hxvalue, zero_sub, ← exactValue_neg hy]
      exact roundsTo_self (isFinite_neg hy)
  · obtain ⟨t, hyt, hyvalue⟩ | ⟨t, n, f, hn, hyt, hyvalue, -⟩ := unpack_cases hy
    · have hsame : x - y = x := by
        rw [hsub, hxs, hyt]
        show Float.ofModel (.pack (.finite s m e hm)) = _
        rw [← hxs]
        exact ofModel_pack_unpack hx
      rw [hsame, hyvalue, sub_zero]
      exact roundsTo_self hx
    · rw [hsub, hxs, hyt, hxvalue, hyvalue, ← apply_decreaseExponent s m (min_le_left e f),
        ← apply_decreaseExponent t n (min_le_right e f), ← sub_mul, ← Int.cast_sub]
      exact normalize_roundsTo _ _ _

/-! ## §5 Infinities -/

theorem unpack_infinity (negative : Bool) :
    (infinity negative).toModel.unpack
      = .infinity (if negative then .negative else .positive) := by
  cases negative <;> rfl

theorem ofModel_infinity (negative : Bool) :
    Float.ofModel (.pack (.infinity (if negative then .negative else .positive)))
      = infinity negative := by
  cases negative <;> rfl

/-- What is not zero takes an infinity to one with its sign. -/
theorem mul_infinity {x : Float} (hx : x.isFinite = true) (hne : exactValue x ≠ 0) :
    x * infinity false = infinity (exactValue x < 0)
      ∧ infinity false * x = infinity (exactValue x < 0) := by
  have hmul (y z : Float) : y * z = Float.ofModel (.pack
      (mul .binary64 y.toModel.unpack z.toModel.unpack)) := rfl
  obtain ⟨s, -, hvalue⟩ | ⟨s, m, e, hm, hunpack, hvalue, -⟩ := unpack_cases hx
  · exact absurd hvalue hne
  have hpos : (0 : ℚ) < m * 2 ^ e := by positivity
  rw [hmul, hmul, unpack_infinity, hunpack, hvalue, ← ofModel_infinity]
  cases s with
  | positive =>
    rw [signed, decide_eq_false hpos.not_gt]
    exact ⟨rfl, rfl⟩
  | negative =>
    rw [signed, decide_eq_true (neg_lt_zero.mpr hpos)]
    exact ⟨rfl, rfl⟩

theorem infinity_div {x : Float} (hx : x.isFinite = true) (hpos : 0 < exactValue x)
    (negative : Bool) : infinity negative / x = infinity negative := by
  have hdiv : infinity negative / x = Float.ofModel (.pack
      (div .binary64 (infinity negative).toModel.unpack x.toModel.unpack)) := rfl
  obtain ⟨s, -, hvalue⟩ | ⟨s, m, e, hm, hunpack, hvalue, -⟩ := unpack_cases hx
  · exact absurd hvalue hpos.ne'
  have hmagnitude : (0 : ℚ) < m * 2 ^ e := by positivity
  rw [hdiv, unpack_infinity, hunpack, ← ofModel_infinity]
  cases s with
  | positive => cases negative <;> rfl
  | negative =>
    rw [hvalue, signed] at hpos
    linarith

/-- Nothing finite is left without an infinite part. -/
theorem sub_infinity {x : Float} (hx : x.isFinite = true) : x - infinity false = infinity true := by
  have hsub : x - infinity false = Float.ofModel (.pack
      (sub .binary64 x.toModel.unpack (infinity false).toModel.unpack)) := rfl
  rw [hsub, unpack_infinity, ← ofModel_infinity]
  obtain ⟨s, hunpack, -⟩ | ⟨s, m, e, hm, hunpack, -, -⟩ := unpack_cases hx
  · rw [hunpack]
    rfl
  · rw [hunpack]
    rfl

end SumSheet.Number
