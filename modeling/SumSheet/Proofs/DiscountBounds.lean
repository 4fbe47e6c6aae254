/-
SumSheet.Proofs.DiscountBounds — a discount stays within its price, as
long as the price times the percentage is in the range of doubles.

A discount is computed as `N - N * P / 100`, and the product comes first.
It may be infinite where the hundredth of it would not be. Nothing else
can go wrong (`percentageValue?_discount`): if the product is rounded to a
finite double, then the result is finite, and it lies between zero and the
price but for a few units of the last place. If it is not, the result is
the lesser infinity. With the division first no price is too large
(`discount_dividedFirst`).

Most of the bounds need no calculation. Rounding does not pass a double,
and zero, one, and the price itself are doubles. Only the share that is
taken away may pass the price, by the error of the product. This error is
relative to the price, unless the price is so small that its neighbours
are farther away than the error.

  §1 Shares    — a hundredth of the product is hardly more than the price.
  §2 Discounts — what is left of the price, in both orders.
  §3 Infinite  — a product beyond all doubles.
  §4 Texts     — the theorem.
-/
import SumSheet.Proofs.PercentageShapes
import SumSheet.Proofs.RoundedArithmetic

namespace SumSheet

namespace Number

/-! ## §1 Shares -/

theorem isFinite_hundred : (100.0 : Float).isFinite = true := by rfl

theorem exactValue_hundred : exactValue 100.0 = 100 := by
  have hunpack : (100.0 : Float).toModel.unpack = hundred := by rfl
  rw [exactValue_finite hunpack, signed]
  norm_num

section

variable {base share : Float}

/-- The price may be passed by the error of the product, unless the gap to the next double is too
wide for it. -/
theorem share_bounds (hbase : base.isFinite = true) {product : Float} {z : ℚ}
    (hproduct : RoundsTo z product) (hz : 0 ≤ z) (hle : z ≤ 100 * exactValue base)
    (hrange : z < Quotient.overflow) (hshare : RoundsTo (exactValue product / 100) share) :
    share.isFinite = true ∧ 0 ≤ exactValue share
      ∧ exactValue share ≤ exactValue base + exactValue base / 2 ^ 52 := by
  have hz' : |z| < Quotient.overflow := by rwa [abs_of_nonneg hz]
  have herror := abs_le.mp (hproduct.abs_error_le hz')
  rw [abs_of_nonneg hz] at herror
  have hnonneg : 0 ≤ exactValue product :=
    exactValue_zero ▸ hproduct.ge_of_ge hz' isFinite_zero (exactValue_zero ▸ hz)
  have hfinite := hproduct.isFinite hz'
  have hhundredth : |exactValue product / 100| < Quotient.overflow := by
    have hlt := (le_abs_self _).trans_lt (abs_exactValue_lt hfinite)
    rw [abs_of_nonneg (by linarith)]
    linarith
  have hshare_finite := hshare.isFinite hhundredth
  refine ⟨hshare_finite, exactValue_zero ▸ hshare.ge_of_ge hhundredth isFinite_zero ?_, ?_⟩
  · rw [exactValue_zero]
    linarith
  rcases le_or_gt (exactValue product / 100) (exactValue base) with hlow | hhigh
  · linarith [hshare.le_of_le hhundredth hbase hlow]
  · -- the price is a double too, so the share is not farther away from what is rounded
    have hnear := hshare.abs_sub_le hhundredth hbase
    rw [abs_of_nonpos (sub_nonpos.mpr hhigh.le)] at hnear
    have hpassed := (le_abs_self _).trans hnear
    rcases le_max_iff.mp herror.2 with hrelative | hleast
    · linarith
    · have hgap : exactValue share ≤ exactValue base := by
        by_contra hlt
        have hstep := add_least_le hbase hshare_finite (not_le.mp hlt)
        rw [show (-1074 : Int) = -1075 + 1 by norm_num, zpow_add_one₀ two_ne_zero] at hstep
        have hpos : (0 : ℚ) < 2 ^ (-1075 : Int) := by positivity
        linarith
      linarith

/-! ## §2 Discounts -/

/-- What is left of the price. -/
theorem discount_bounds (hbase : base.isFinite = true) (hshare : share.isFinite = true)
    (hnonneg : 0 ≤ exactValue share) {excess : ℚ}
    (hle : exactValue share ≤ exactValue base + excess) (hexcess : 0 ≤ excess)
    (hprice : 0 ≤ exactValue base) :
    (base - share).isFinite = true ∧ -(2 * excess) ≤ exactValue (base - share)
      ∧ exactValue (base - share) ≤ exactValue base := by
  have hround := sub_roundsTo hbase hshare
  have hrange : |exactValue base - exactValue share| < Quotient.overflow := by
    have hlt := (le_abs_self _).trans_lt (abs_exactValue_lt hbase)
    have hlt' := (le_abs_self _).trans_lt (abs_exactValue_lt hshare)
    exact abs_lt.mpr ⟨by linarith, by linarith⟩
  refine ⟨hround.isFinite hrange, ?_, hround.le_of_le hrange hbase (by linarith)⟩
  -- zero is a double: what is rounded goes at most twice as far
  have hnear := hround.abs_sub_le hrange isFinite_zero
  rw [exactValue_zero, zero_sub, abs_neg] at hnear
  have hlow := neg_abs_le (exactValue (base - share) - (exactValue base - exactValue share))
  rcases le_total 0 (exactValue base - exactValue share) with hsign | hsign
  · rw [abs_of_nonneg hsign] at hnear
    linarith
  · rw [abs_of_nonpos hsign] at hnear
    linarith

variable {percent : Float} (hbase : base.isFinite = true) (hpercent : percent.isFinite = true)
  (hprice : 0 ≤ exactValue base) (hnonneg : 0 ≤ exactValue percent)
  (hle : exactValue percent ≤ 100)

include hbase hpercent hprice hnonneg hle

/-- With the product first, a product in range is enough. -/
theorem discount_multipliedFirst
    (hrange : exactValue base * exactValue percent < Quotient.overflow) :
    (base - base * percent / 100.0).isFinite = true
      ∧ -(exactValue base / 2 ^ 51) ≤ exactValue (base - base * percent / 100.0)
      ∧ exactValue (base - base * percent / 100.0) ≤ exactValue base := by
  have hz := mul_nonneg hprice hnonneg
  have hproduct := mul_roundsTo hbase hpercent
  have hfinite := hproduct.isFinite (by rwa [abs_of_nonneg hz])
  have hshare := div_roundsTo hfinite isFinite_hundred (by rw [exactValue_hundred]; norm_num)
  rw [exactValue_hundred] at hshare
  obtain ⟨hshare_finite, hshare_nonneg, hshare_le⟩ := share_bounds hbase hproduct hz
    (by rw [mul_comm]; gcongr) hrange hshare
  obtain ⟨hresult, hlow, hhigh⟩ := discount_bounds hbase hshare_finite hshare_nonneg hshare_le
    (by positivity) hprice
  exact ⟨hresult, by linarith, hhigh⟩

/-- With the division first, every price is in range. -/
theorem discount_dividedFirst :
    (base - base * (percent / 100.0)).isFinite = true
      ∧ 0 ≤ exactValue (base - base * (percent / 100.0))
      ∧ exactValue (base - base * (percent / 100.0)) ≤ exactValue base := by
  have hrate := div_roundsTo hpercent isFinite_hundred (by rw [exactValue_hundred]; norm_num)
  rw [exactValue_hundred] at hrate
  have hrate_range : |exactValue percent / 100| < Quotient.overflow := by
    have hlt := (le_abs_self _).trans_lt (abs_exactValue_lt hpercent)
    rw [abs_of_nonneg (by linarith)]
    linarith
  have hrate_finite := hrate.isFinite hrate_range
  have hrate_nonneg : 0 ≤ exactValue (percent / 100.0) :=
    exactValue_zero ▸ hrate.ge_of_ge hrate_range isFinite_zero (by rw [exactValue_zero]; linarith)
  have hrate_le : exactValue (percent / 100.0) ≤ 1 :=
    exactValue_one ▸ hrate.le_of_le hrate_range isFinite_one (by rw [exactValue_one]; linarith)
  have hshare := mul_roundsTo hbase hrate_finite
  have hshare_low := mul_nonneg hprice hrate_nonneg
  have hshare_high := mul_le_of_le_one_right hprice hrate_le
  have hshare_range : |exactValue base * exactValue (percent / 100.0)| < Quotient.overflow := by
    rw [abs_of_nonneg hshare_low]
    exact hshare_high.trans_lt ((le_abs_self _).trans_lt (abs_exactValue_lt hbase))
  have hshare_le : exactValue (base * (percent / 100.0)) ≤ exactValue base + 0 := by
    rw [add_zero]
    exact hshare.le_of_le hshare_range hbase hshare_high
  obtain ⟨hresult, hlow, hhigh⟩ := discount_bounds hbase (hshare.isFinite hshare_range)
    (exactValue_zero ▸ hshare.ge_of_ge hshare_range isFinite_zero (exactValue_zero ▸ hshare_low))
    hshare_le le_rfl hprice
  exact ⟨hresult, by linarith, hhigh⟩

end

/-! ## §3 Infinite -/

/-- With the product first, a product beyond all doubles takes everything away. -/
theorem discount_eq_infinity {base percent : Float} (hbase : base.isFinite = true)
    (hpercent : percent.isFinite = true)
    (hrange : Quotient.overflow ≤ exactValue base * exactValue percent) :
    base - base * percent / 100.0 = infinity true := by
  have hpos : 0 < Quotient.overflow := lt_of_lt_of_le (by positivity) Quotient.le_overflow
  have hproduct := (mul_roundsTo hbase hpercent).eq_infinity (hrange.trans (le_abs_self _))
  rw [decide_eq_false (by linarith)] at hproduct
  rw [hproduct, infinity_div isFinite_hundred (by rw [exactValue_hundred]; norm_num),
    sub_infinity hbase]

end Number

/-! ## §4 Texts -/

open Number

theorem Number.Amount.exactValue_nonneg {x : Float} (h : Amount x) : 0 ≤ exactValue x := by
  have hamount : IsAmount x.toModel.unpack := h
  rw [exactValue]
  generalize x.toModel.unpack = f at hamount
  cases hamount with
  | infinity => exact le_rfl
  | zero => exact le_rfl
  | finite hm =>
    show (0 : ℚ) ≤ _ * _
    positivity

/-- **A discount stays within its price, as long as the price times the percentage does not
overflow.** -/
theorem percentageValue?_discount {text : List Char} {q : Percentage}
    (hspells : Percentage.Spells text q) (hform : q.form = .decrease ∨ q.form = .off)
    (hpercent : q.percent.isFinite = true) (hbase : q.base.isFinite = true)
    (hle : exactValue q.percent ≤ 100) :
    percentageValue? text = some q.value
      ∧ (exactValue q.base * exactValue q.percent < Quotient.overflow →
        q.value.isFinite = true ∧ -(exactValue q.base / 2 ^ 51) ≤ exactValue q.value
          ∧ exactValue q.value ≤ exactValue q.base)
      ∧ (Quotient.overflow ≤ exactValue q.base * exactValue q.percent → q.value = infinity true)
      ∧ (q.base - q.base * (q.percent / 100.0)).isFinite = true
      ∧ 0 ≤ exactValue (q.base - q.base * (q.percent / 100.0))
      ∧ exactValue (q.base - q.base * (q.percent / 100.0)) ≤ exactValue q.base := by
  have hread := Percentage.read?_eq_some_iff.mpr hspells
  obtain ⟨hpercent_amount, hbase_amount⟩ := Percentage.amounts_of_read? hread
  have hnonneg := Amount.exactValue_nonneg hpercent_amount
  have hprice := Amount.exactValue_nonneg hbase_amount
  have hvalue : q.value = q.base - q.base * q.percent / 100.0 := by
    rcases hform with h | h <;> rw [Percentage.value, h] <;> rfl
  rw [hvalue]
  refine ⟨by rw [percentageValue?, hread, Option.map_some, hvalue], ?_, ?_, ?_⟩
  · exact discount_multipliedFirst hbase hpercent hprice hnonneg hle
  · exact discount_eq_infinity hbase hpercent
  · exact discount_dividedFirst hbase hpercent hprice hnonneg hle

theorem Percentage.spells_of_parts {text : List Char} {form : PercentForm} {percent base : Float}
    (h : (Percentage.read? text).map (fun q => (q.form, q.percent, q.base))
      = some (form, percent, base)) : Percentage.Spells text ⟨form, percent, base⟩ := by
  obtain ⟨⟨_, _, _⟩, hread, hparts⟩ := Option.map_eq_some_iff.mp h
  cases hparts
  exact Percentage.spells_of_read? hread

/-- A quarter off. -/
theorem percentageValue?_discount_quarter :
    Percentage.Spells "25% off 80".toList ⟨.off, 25, 80⟩
      ∧ (25 : Float).isFinite = true ∧ (80 : Float).isFinite = true
      ∧ exactValue 25 ≤ 100 ∧ exactValue 80 * exactValue 25 < Quotient.overflow
      ∧ percentageValue? "25% off 80".toList = some (Percentage.value ⟨.off, 25, 80⟩)
      ∧ -(exactValue 80 / 2 ^ 51) ≤ exactValue (Percentage.value ⟨.off, 25, 80⟩)
      ∧ exactValue (Percentage.value ⟨.off, 25, 80⟩) ≤ exactValue 80 :=
  have hspells : Percentage.Spells "25% off 80".toList ⟨.off, 25, 80⟩ :=
    Percentage.spells_of_parts (by decide +kernel)
  have hpercent : (25 : Float).isFinite = true := by rfl
  have hbase : (80 : Float).isFinite = true := by rfl
  have hle : exactValue 25 ≤ 100 := by decide +kernel
  have hrange : exactValue 80 * exactValue 25 < Quotient.overflow := by decide +kernel
  have hvalue := percentageValue?_discount hspells (.inr rfl) hpercent hbase hle
  ⟨hspells, hpercent, hbase, hle, hrange, hvalue.1, (hvalue.2.1 hrange).2⟩

/-- Half of ten to the power of 308 is a double, and fifty times as much is none. -/
theorem percentageValue?_overflow :
    Percentage.Spells ('1' :: (List.replicate 308 '0' ++ " - 50%".toList)) ⟨.decrease, 50, 1e308⟩
      ∧ (50 : Float).isFinite = true ∧ (1e308 : Float).isFinite = true ∧ exactValue 50 ≤ 100
      ∧ percentageValue? ('1' :: (List.replicate 308 '0' ++ " - 50%".toList))
        = some (infinity true)
      ∧ (1e308 - 1e308 * (50 / 100.0) : Float) = 5e307 :=
  ⟨Percentage.spells_of_parts (by decide +kernel), by decide +kernel, by decide +kernel,
    by decide +kernel, by decide +kernel, by decide +kernel⟩

end SumSheet
