/-
SumSheet.Proofs.PowersOfTen — the scale factors of decimal rounding.

A power is computed by repeated squaring, and every product is rounded.
What a round of the loop can lose or gain is said once for all exponents
(`powerAcc_between`): no product is off by more than one part in `2 ^ 53`,
and only what is out of range is infinite.

From `10.0` on, that bound gets worse with every round, which is too much
where the factor is to be nearly exact. But the loop may as well be
entered later (`powerAcc_split`). The powers of ten with fewer than
sixteen zeros are exact, the next two rounds can lose once each, and then
the base happens to be rounded up by more than a product can lose: from
there on nothing is lost any more (`powerOf_ten_between`).

  §1 Products — of doubles from one upwards.
  §2 Powers   — a round of the loop, and the whole run.
  §3 Factors  — the finite ones, and all others.
-/
import SumSheet.Number.Power
import SumSheet.Proofs.RoundedArithmetic

namespace SumSheet.Number

/-! ## §1 Products -/

/-- The double is between two bounds, or it is infinite and the upper one is out of range. -/
inductive Between (low high : ℚ) : Float → Prop
  | finite {x : Float} (hfinite : x.isFinite = true) (hlow : low ≤ exactValue x)
      (hhigh : exactValue x ≤ high) : Between low high x
  | infinite (hrange : Quotient.overflow ≤ high) : Between low high (infinity false)

namespace Between

variable {low high low' high' : ℚ} {x y : Float}

theorem mono (hx : Between low high x) (hlow : low' ≤ low) (hhigh : high ≤ high') :
    Between low' high' x := by
  cases hx with
  | finite hx hle hle' => exact .finite hx (hlow.trans hle) (hle'.trans hhigh)
  | infinite hrange => exact .infinite (hrange.trans hhigh)

theorem one_le (hx : Between low high x) (hlow : 1 ≤ low) : 1 ≤ high := by
  cases hx with
  | finite _ hle hle' => linarith
  | infinite hrange =>
    exact ((one_le_zpow₀ one_le_two (by norm_num)).trans Quotient.le_overflow).trans hrange

/-- A product is off by a relative error at most. -/
theorem mul (hx : Between low high x) (hy : Between low' high' y) (hlow : 1 ≤ low)
    (hlow' : 1 ≤ low') :
    Between (low * low' * (1 - 1 / 2 ^ 53)) (high * high' * (1 + 1 / 2 ^ 53)) (x * y) := by
  have hhigh := hx.one_le hlow
  have hhigh' := hy.one_le hlow'
  have hgain : high * high' ≤ high * high' * (1 + 1 / 2 ^ 53) :=
    le_mul_of_one_le_right (by positivity) (by norm_num)
  cases hx with
  | infinite hrange =>
    have hproduct : Quotient.overflow ≤ high * high' * (1 + 1 / 2 ^ 53) :=
      (hrange.trans (le_mul_of_one_le_right (by positivity) hhigh')).trans hgain
    cases hy with
    | infinite =>
      rw [show infinity false * infinity false = infinity false by rfl]
      exact .infinite hproduct
    | finite hy hle =>
      rw [(mul_infinity hy (by linarith)).2, decide_eq_false (by linarith)]
      exact .infinite hproduct
  | finite hx hle hle' =>
    cases hy with
    | infinite hrange =>
      rw [(mul_infinity hx (by linarith)).1, decide_eq_false (by linarith)]
      exact .infinite ((hrange.trans (le_mul_of_one_le_left (by positivity) hhigh)).trans hgain)
    | finite hy hley hley' =>
      have hround := mul_roundsTo hx hy
      have hleast : low * low' ≤ exactValue x * exactValue y :=
        mul_le_mul hle hley (by linarith) (by linarith)
      have hgreatest : exactValue x * exactValue y ≤ high * high' :=
        mul_le_mul hle' hley' (by linarith) (by linarith)
      have hone : 1 ≤ exactValue x * exactValue y :=
        one_le_mul_of_one_le_of_one_le (hlow.trans hle) (hlow'.trans hley)
      generalize exactValue x * exactValue y = z at hround hleast hgreatest hone
      have habs : |z| = z := abs_of_nonneg (by linarith)
      rcases lt_or_ge |z| Quotient.overflow with hrange | hrange
      · have herror := hround.abs_error_le hrange
        have hrelative : (2 : ℚ) ^ (-1075 : Int) ≤ |z| / 2 ^ 53 := by
          linarith [half_least_le]
        rw [max_eq_left hrelative, habs] at herror
        obtain ⟨herror, herror'⟩ := abs_le.mp herror
        have hscaled : low * low' * (1 - 1 / 2 ^ 53) ≤ z * (1 - 1 / 2 ^ 53) := by
          gcongr
        have hscaled' : z * (1 + 1 / 2 ^ 53) ≤ high * high' * (1 + 1 / 2 ^ 53) := by
          gcongr
        exact .finite (hround.isFinite hrange) (by linarith) (by linarith)
      · rw [hround.eq_infinity hrange, decide_eq_false (by linarith)]
        exact .infinite (by linarith)

end Between

/-! ## §2 Powers -/

theorem powerAcc_zero (acc base : Float) : powerAcc acc base 0 = acc := by
  rw [powerAcc]
  rfl

/-- A round of the loop takes the base into the product if the last bit of the exponent says so. The
rounds after the last one would change nothing. -/
theorem powerAcc_round (acc base : Float) (n : Nat) : powerAcc acc base n
    = powerAcc (if n % 2 = 1 then acc * base else acc) (base * base) (n / 2) := by
  conv_lhs => rw [powerAcc]
  by_cases hlast : n / 2 = 0
  · simp only [hlast, if_true, powerAcc_zero]
  · simp only [hlast, if_false]

/-- The base of the loop, some rounds later. -/
def squares (base : Float) (k : Nat) : Float :=
  (fun x => x * x)^[k] base

theorem squares_succ (base : Float) (k : Nat) :
    squares base (k + 1) = squares base k * squares base k :=
  Function.iterate_succ_apply' _ k base

/-- The loop can be entered behind the low bits of the exponent. -/
theorem powerAcc_split {k l : Nat} (hl : l < 2 ^ k) (h : Nat) (acc base : Float) :
    powerAcc acc base (l + 2 ^ k * h) = powerAcc (powerAcc acc base l) (squares base k) h := by
  induction k generalizing l acc base with
  | zero =>
    rw [Nat.lt_one_iff.mp hl, powerAcc_zero, pow_zero, one_mul, zero_add]
    rfl
  | succ k ih =>
    have hbit : (l + 2 ^ (k + 1) * h) % 2 = l % 2 := by
      rw [pow_succ', mul_assoc, Nat.add_mul_mod_self_left]
    have hrest : (l + 2 ^ (k + 1) * h) / 2 = l / 2 + 2 ^ k * h := by
      rw [pow_succ', mul_assoc, Nat.add_mul_div_left _ _ two_pos]
    rw [powerAcc_round, hbit, hrest, ih (by omega), ← powerAcc_round]
    rfl

section

variable {low high a b : ℚ} {acc base : Float}

/-- A base is given with the error of a product taken off, so that the product need not be. -/
theorem product_between (hlow : 1 ≤ low) (ha : 1 ≤ a) (hacc : Between low high acc)
    (hbase : Between (a / (1 - 1 / 2 ^ 53)) (b / (1 + 1 / 2 ^ 53)) base) :
    Between (low * a) (high * b) (acc * base) := by
  have hloss : (1 - 1 / 2 ^ 53 : ℚ) ≠ 0 := by norm_num
  have hgain : (1 + 1 / 2 ^ 53 : ℚ) ≠ 0 := by norm_num
  have hone : a ≤ a / (1 - 1 / 2 ^ 53) := le_div_self (by linarith) (by norm_num) (by norm_num)
  have hproduct := hacc.mul hbase hlow (ha.trans hone)
  rwa [mul_assoc, div_mul_cancel₀ _ hloss, mul_assoc, div_mul_cancel₀ _ hgain] at hproduct

theorem square_between (ha : 1 ≤ a)
    (hbase : Between (a / (1 - 1 / 2 ^ 53)) (b / (1 + 1 / 2 ^ 53)) base) :
    Between (a ^ 2 / (1 - 1 / 2 ^ 53)) (b ^ 2 / (1 + 1 / 2 ^ 53)) (base * base) := by
  have hone : a ≤ a / (1 - 1 / 2 ^ 53) := le_div_self (by linarith) (by norm_num) (by norm_num)
  have hsquare := product_between (ha.trans hone) ha hbase hbase
  rwa [div_mul_eq_mul_div, div_mul_eq_mul_div, ← sq, ← sq] at hsquare

theorem round_between (hlow : 1 ≤ low) (ha : 1 ≤ a) (hacc : Between low high acc)
    (hbase : Between (a / (1 - 1 / 2 ^ 53)) (b / (1 + 1 / 2 ^ 53)) base) (n : Nat) :
    Between (low * a ^ (n % 2)) (high * b ^ (n % 2))
      (if n % 2 = 1 then acc * base else acc) := by
  split
  · rename_i hbit
    rw [hbit, pow_one, pow_one]
    exact product_between hlow ha hacc hbase
  · rename_i hbit
    rwa [Nat.mod_two_ne_one.mp hbit, pow_zero, pow_zero, mul_one, mul_one]

/-- The bits of the exponent that are done are in `acc`, and the rest is counted in powers of the
base. -/
theorem powerAcc_between (hlow : 1 ≤ low) (ha : 1 ≤ a) (hacc : Between low high acc)
    (hbase : Between (a / (1 - 1 / 2 ^ 53)) (b / (1 + 1 / 2 ^ 53)) base) (n : Nat) :
    Between (low * a ^ n) (high * b ^ n) (powerAcc acc base n) := by
  induction n using Nat.strong_induction_on generalizing low high a b acc base with
  | h n ih =>
    rcases Nat.eq_zero_or_pos n with rfl | hpos
    · rwa [powerAcc_zero, pow_zero, pow_zero, mul_one, mul_one]
    · have hrest := ih (n / 2) (by omega)
        (one_le_mul_of_one_le_of_one_le hlow (one_le_pow₀ ha (n := n % 2))) (one_le_pow₀ ha)
        (round_between hlow ha hacc hbase n) (square_between ha hbase)
      rwa [mul_assoc, mul_assoc, ← pow_mul, ← pow_mul, ← pow_add, ← pow_add, Nat.mod_add_div,
        ← powerAcc_round] at hrest

end

/-! ## §3 Factors -/

theorem powerOf_natCast (base : Float) (n : Nat) : powerOf base n = powerAcc 1.0 base n := by
  rw [powerOf, if_neg (by omega), Int.natAbs_natCast]

/-- The powers of ten with fewer than sixteen zeros are exact. -/
theorem powerAcc_ten_between {n : Nat} (h : n < 2 ^ 4) :
    Between (10 ^ n) (10.0001 ^ n) (powerAcc 1.0 10.0 n) := by
  have hexact : ∀ n : Nat, n < 2 ^ 4 → (powerAcc 1.0 10.0 n).isFinite = true
      ∧ exactValue (powerAcc 1.0 10.0 n) = 10 ^ n := by
    decide +kernel
  obtain ⟨hfinite, hvalue⟩ := hexact n h
  refine .finite hfinite hvalue.ge (hvalue.le.trans ?_)
  gcongr
  norm_num

/-- Behind six bits of the exponent, the base exceeds its power by more than a product can lose. -/
theorem squares_ten_between :
    Between (10 ^ 16) (10.0001 ^ 16 / (1 + 1 / 2 ^ 53)) (squares 10.0 4)
      ∧ Between (10 ^ 32) (10.0001 ^ 32 / (1 + 1 / 2 ^ 53)) (squares 10.0 5)
      ∧ Between (10 ^ 64 / (1 - 1 / 2 ^ 53)) (10.0001 ^ 64 / (1 + 1 / 2 ^ 53))
        (squares 10.0 6) := by
  refine ⟨.finite ?_ ?_ ?_, .finite ?_ ?_ ?_, .finite ?_ ?_ ?_⟩ <;> decide +kernel

/-- Of the first six bits, only the last two can make a product inexact. -/
theorem powerAcc_ten_between_of_lt {n : Nat} (h : n < 2 ^ 6) :
    Between (max 1 (10 ^ n * (1 - 1 / 2 ^ 52))) (10.0001 ^ n) (powerAcc 1.0 10.0 n) := by
  obtain ⟨l, r, hl, hr, rfl⟩ : ∃ l r, l < 2 ^ 4 ∧ r < 4 ∧ n = l + 2 ^ 4 * r :=
    ⟨n % 2 ^ 4, n / 2 ^ 4, by omega, by omega, (Nat.mod_add_div n (2 ^ 4)).symm⟩
  obtain ⟨hfourth, hfifth, -⟩ := squares_ten_between
  have hloss : (1 - 1 / 2 ^ 53 : ℚ) ≠ 0 := by norm_num
  rw [← mul_div_cancel_right₀ ((10 : ℚ) ^ 16) hloss] at hfourth
  rw [← mul_div_cancel_right₀ ((10 : ℚ) ^ 32) hloss, squares_succ] at hfifth
  have hsixteen : (1 : ℚ) ≤ 10 ^ 16 * (1 - 1 / 2 ^ 53) := by norm_num
  have hthirtytwo : (1 : ℚ) ≤ 10 ^ 32 * (1 - 1 / 2 ^ 53) := by norm_num
  have hexact : (1 : ℚ) ≤ 10 ^ l := one_le_pow₀ (by norm_num)
  have hone := one_le_mul_of_one_le_of_one_le hexact (one_le_pow₀ hsixteen (n := r % 2))
  have hrounds := round_between hone hthirtytwo
    (round_between hexact hsixteen (powerAcc_ten_between hl) hfourth r) hfifth (r / 2)
  have hlast : r / 2 / 2 = 0 := by omega
  have hbits : l + 16 * (r % 2) + 32 * (r / 2 % 2) = l + 2 ^ 4 * r := by omega
  rw [powerAcc_split hl, powerAcc_round, powerAcc_round, hlast, powerAcc_zero]
  refine hrounds.mono (max_le ?_ ?_) (le_of_eq ?_)
  · exact one_le_mul_of_one_le_of_one_le hone (one_le_pow₀ hthirtytwo)
  · calc (10 : ℚ) ^ (l + 2 ^ 4 * r) * (1 - 1 / 2 ^ 52)
        ≤ 10 ^ (l + 2 ^ 4 * r) * (1 - 1 / 2 ^ 53) ^ (r % 2 + r / 2 % 2) := by
          gcongr
          exact le_trans (by norm_num)
            (pow_le_pow_of_le_one (by norm_num) (by norm_num) (by omega : _ ≤ 2))
      _ = 10 ^ l * (10 ^ 16 * (1 - 1 / 2 ^ 53)) ^ (r % 2)
            * (10 ^ 32 * (1 - 1 / 2 ^ 53)) ^ (r / 2 % 2) := by
          rw [← hbits, mul_pow, mul_pow, ← pow_mul, ← pow_mul]
          ring
  · rw [← pow_mul, ← pow_mul, ← pow_add, ← pow_add, hbits]

/-- A power of ten falls short of the exact one by less than one part in `2 ^ 52`. -/
theorem powerOf_ten_between (n : Nat) :
    Between (max 1 (10 ^ n * (1 - 1 / 2 ^ 52))) (10.0001 ^ n) (powerOf 10.0 n) := by
  obtain ⟨l, r, hl, rfl⟩ : ∃ l r, l < 2 ^ 6 ∧ n = l + 2 ^ 6 * r :=
    ⟨n % 2 ^ 6, n / 2 ^ 6, by omega, (Nat.mod_add_div n (2 ^ 6)).symm⟩
  have hpower := powerAcc_between (le_max_left _ _) (by norm_num) (powerAcc_ten_between_of_lt hl)
    squares_ten_between.2.2 r
  rw [powerOf_natCast, powerAcc_split hl]
  refine hpower.mono (max_le ?_ ?_) (le_of_eq ?_)
  · exact one_le_mul_of_one_le_of_one_le (le_max_left _ _) (one_le_pow₀ (by norm_num))
  · calc (10 : ℚ) ^ (l + 2 ^ 6 * r) * (1 - 1 / 2 ^ 52)
        = 10 ^ l * (1 - 1 / 2 ^ 52) * (10 ^ 64) ^ r := by
          rw [pow_add, pow_mul, mul_right_comm]
          rfl
      _ ≤ max 1 (10 ^ l * (1 - 1 / 2 ^ 52)) * (10 ^ 64) ^ r := by
          gcongr
          exact le_max_right _ _
  · rw [pow_add, pow_mul]
    rfl

/-- The powers of ten that are doubles; none of them is close to the greatest double. -/
theorem powerOf_ten {n : Nat} (h : n ≤ 308) : (powerOf 10.0 n).isFinite = true
    ∧ 1 ≤ exactValue (powerOf 10.0 n)
    ∧ 10 ^ n * (1 - 1 / 2 ^ 52) ≤ exactValue (powerOf 10.0 n)
    ∧ exactValue (powerOf 10.0 n) ≤ 9 * 2 ^ 1020 := by
  have hgreatest : (10.0001 : ℚ) ^ n ≤ 9 * 2 ^ 1020 :=
    (pow_le_pow_right₀ (by norm_num) h).trans (by decide +kernel)
  have hoverflow : 9 * 2 ^ 1020 < Quotient.overflow := by decide +kernel
  have hpower := powerOf_ten_between n
  generalize powerOf 10.0 n = f at hpower ⊢
  cases hpower with
  | infinite hrange => exact absurd (hrange.trans hgreatest) hoverflow.not_ge
  | finite hfinite hlow hhigh =>
    exact ⟨hfinite, (le_max_left _ _).trans hlow, (le_max_right _ _).trans hlow,
      hhigh.trans hgreatest⟩

/-- All other powers of ten are infinite. -/
theorem powerOf_ten_of_lt {n : Nat} (h : 308 < n) : powerOf 10.0 n = infinity false := by
  have hpower := powerOf_ten_between n
  generalize powerOf 10.0 n = f at hpower
  cases hpower with
  | infinite => rfl
  | finite hfinite hlow =>
    have hoverflow : Quotient.overflow ≤ 10 ^ 309 * (1 - 1 / 2 ^ 52) := by decide +kernel
    have hlarge : (10 : ℚ) ^ 309 * (1 - 1 / 2 ^ 52) ≤ 10 ^ n * (1 - 1 / 2 ^ 52) :=
      mul_le_mul_of_nonneg_right (pow_le_pow_right₀ (by norm_num) h) (by norm_num)
    have hsmall := (le_abs_self _).trans_lt (abs_exactValue_lt hfinite)
    exact absurd (((hoverflow.trans hlarge).trans (le_max_right _ _)).trans hlow) hsmall.not_ge

end SumSheet.Number
