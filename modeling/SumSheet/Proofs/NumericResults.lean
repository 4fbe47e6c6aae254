/-
SumSheet.Proofs.NumericResults — which results are not a number.

What the evaluator gives is always a number. The value of a percentage
is not looked at, and its literals may be too long to be finite: then a
product of zero and infinity, or a difference of infinities, comes out
as NaN. `value_isNaN_iff_undefined` says for a percentage when, and
`recalculate_isNaN_iff` for each line of a pass.

  §1 Packing     — what becomes of an unpacked float that is a double.
  §2 Amounts     — doubles without a sign, and operations on them.
  §3 Literals    — a number that is read is an amount.
  §4 Percentages — `Percentage.Undefined`, and that it means NaN.
  §5 Evaluation  — the evaluator has no NaN.
  §6 Passes      — the theorem.
-/
import SumSheet.Proofs.FloatBits
import SumSheet.Proofs.PassScope
import SumSheet.Proofs.PercentageShapes
import SumSheet.Proofs.Redisplay

namespace SumSheet

namespace Number

open Float.Model (Format UnpackedFloat)
open Float.Model.UnpackedFloat

/-! ## §1 Packing -/

/-- What an unpacked float is once it has been a double. -/
def repack (f : UnpackedFloat) : UnpackedFloat :=
  (Float.Model.pack f).unpack

theorem repack_notANumber : repack .notANumber = .notANumber := by rfl

theorem repack_infinity (s : Sign) : repack (.infinity s) = .infinity s := by
  cases s <;> rfl

theorem repack_zero (s : Sign) : repack (.zero s) = .zero s := by
  cases s <;> rfl

theorem unpack_packComponents (s : Sign) (field : BitVec 11) (fraction : BitVec 52) :
    unpack .binary64 (packComponents .binary64 s field fraction) = unpacked s field fraction := by
  have hsign : Sign.ofBitVec (@unpackSign .binary64 (packComponents .binary64 s field fraction))
      = s := by
    have hbit : (@unpackSign .binary64 (packComponents .binary64 s field fraction)) = s.toBitVec := by
      apply BitVec.eq_of_toNat_eq
      rw [toNat_unpackSign, toNat_packComponents]
      have hfield := field.isLt
      have hfraction := fraction.isLt
      omega
    rw [hbit]
    cases s <;> rfl
  rw [unpack_eq_unpacked, hsign, unpackExponent_packComponents, unpackMantissa_packComponents]

/-- A finite float is a finite double, or zero, with its sign, unless its exponent is too large. -/
theorem repack_finite (s : Sign) {m : Nat} {e : Int} (hm : 0 < m) :
    (972 ≤ e ∧ repack (.finite s m e hm) = .infinity s)
      ∨ (e < 972 ∧ (repack (.finite s m e hm) = .zero s
        ∨ ∃ m' e' hm', repack (.finite s m e hm) = .finite s m' e' hm')) := by
  have hunpacked : ∀ (field : BitVec 11) (fraction : BitVec 52), field ≠ -1#11 →
      unpacked s field fraction = .zero s
        ∨ ∃ m' e' hm', unpacked s field fraction = .finite s m' e' hm' := by
    intro field fraction hfield
    unfold unpacked
    rw [if_neg hfield]
    split
    · split
      · exact .inl rfl
      · exact .inr ⟨_, _, by simpa [BitVec.toNat_pos, BitVec.pos_iff_ne_zero] using ‹_›, rfl⟩
    · exact .inr ⟨_, _, by omega, rfl⟩
  show (972 ≤ e ∧ unpack .binary64 (pack .binary64 (.finite s m e hm)) = _) ∨ (e < 972
    ∧ (unpack .binary64 (pack .binary64 (.finite s m e hm)) = _
      ∨ ∃ m' e' hm', unpack .binary64 (pack .binary64 (.finite s m e hm)) = .finite s m' e' hm'))
  rw [pack]
  split
  · rename_i hlarge
    have hlarge : 2048 ≤ (e + 1023 + 52).toNat + 1 := hlarge
    exact .inl ⟨by omega, by cases s <;> rfl⟩
  · rename_i hlarge
    have hlarge : ¬ 2048 ≤ (e + 1023 + 52).toNat + 1 := hlarge
    refine .inr ⟨by omega, ?_⟩
    split
    · rw [unpack_packComponents]
      refine hunpacked _ _ fun hfield => ?_
      have hnat : (e + 1023 + 52).toNat % 2 ^ 11 = 2047 := congrArg BitVec.toNat hfield
      omega
    · rw [unpack_packComponents]
      exact hunpacked _ _ (by decide)

theorem mantissa_shiftRight_le (em : ExtendedMantissa) (n : Nat) :
    (em >>> n).mantissa ≤ em.mantissa := by
  show (n.repeat ExtendedMantissa.shiftRightOne em).mantissa ≤ _
  induction n with
  | zero => exact Nat.le_refl _
  | succ n ih => exact Nat.le_trans (Nat.div_le_self _ _) ih

theorem mantissa_ofMantissaAndAccuracy (m : Nat) (accuracy : Accuracy) :
    (ExtendedMantissa.ofMantissaAndAccuracy m accuracy).mantissa = m := by
  rcases accuracy with _ | _ | _ | _ <;> rfl

/-- A mantissa is shifted down and then rounded, up by one at most. -/
theorem roundedMantissa_le (m : Nat) (accuracy : Accuracy) (n : Nat) :
    (ExtendedMantissa.ofMantissaAndAccuracy m accuracy >>> n).roundedMantissa ≤ m + 1 := by
  have hshift := mantissa_shiftRight_le (.ofMantissaAndAccuracy m accuracy) n
  rw [mantissa_ofMantissaAndAccuracy] at hshift
  refine Nat.le_trans ?_ (Nat.succ_le_succ hshift)
  unfold ExtendedMantissa.roundedMantissa
  rcases ExtendedMantissa.accuracy _ with _ | _ | _ | _ <;>
    simp only [Accuracy.roundToNearestEven] <;> omega

/-- Rounding gives a mantissa, perhaps zero, and an exponent that is greater by no more than five
if the mantissa had few bits too many. -/
theorem roundWithAccuracy_eq (s : Sign) (m : Nat) (e : Int) (accuracy : Accuracy) :
    ∃ m' e', (m < 2 ^ 54 → e' ≤ max (e + 5) (-1071))
      ∧ roundWithAccuracy .binary64 s m e accuracy
        = if h : m' = 0 then .zero s else .finite s m' e' (Nat.pos_of_ne_zero h) := by
  refine ⟨_, _, fun hm => ?_, rfl⟩
  have htarget : ∀ t : Int, Format.targetExponent .binary64 t = max (t - 53) (-1074) :=
    fun t => rfl
  simp only [htarget, Float.Model.totalExponent]
  have hround := roundedMantissa_le m accuracy
    (max ((m.log2 : Int) + 1 + e - 53) (-1074) - e).toNat
  generalize ExtendedMantissa.roundedMantissa
    (ExtendedMantissa.ofMantissaAndAccuracy m accuracy >>> (_ : Nat)) = rounded at hround ⊢
  have hlog : ∀ {n k : Nat}, n < 2 ^ k → n.log2 ≤ k := fun {n k} hn => by
    rcases Nat.eq_zero_or_pos n with rfl | hpos
    · exact Nat.zero_le _
    · exact Nat.le_of_lt ((Nat.log2_lt (by omega)).mpr hn)
  have hm' := hlog hm
  have hrounded := hlog (show rounded < 2 ^ 55 by omega)
  omega

/-- Rounding gives a zero or a finite float with the sign it is told. -/
theorem roundWithAccuracy_cases (s : Sign) (m : Nat) (e : Int) (accuracy : Accuracy) :
    roundWithAccuracy .binary64 s m e accuracy = .zero s
      ∨ ∃ m' e' hm', roundWithAccuracy .binary64 s m e accuracy = .finite s m' e' hm'
        ∧ (m < 2 ^ 54 → e' ≤ max (e + 5) (-1071)) := by
  obtain ⟨m', e', he, heq⟩ := roundWithAccuracy_eq s m e accuracy
  rw [heq]
  split
  · exact .inl rfl
  · rename_i hm'
    exact .inr ⟨m', e', Nat.pos_of_ne_zero hm', rfl, he⟩

/-! ## §2 Amounts -/

/-- A double without a minus, and not NaN. -/
inductive IsAmount : UnpackedFloat → Prop
  | infinity : IsAmount (.infinity .positive)
  | zero : IsAmount (.zero .positive)
  | finite {m : Nat} {e : Int} (hm : 0 < m) : IsAmount (.finite .positive m e hm)

/-- A number from zero upwards, infinity included. -/
def Amount (x : Float) : Prop :=
  IsAmount x.toModel.unpack

theorem IsAmount.repack {f : UnpackedFloat} (h : IsAmount f) : IsAmount (repack f) := by
  cases h with
  | infinity => rw [repack_infinity]; exact .infinity
  | zero => rw [repack_zero]; exact .zero
  | @finite m e hm =>
    obtain ⟨_, heq⟩ | ⟨_, heq | ⟨m', e', hm', heq⟩⟩ := repack_finite .positive (e := e) hm
    all_goals rw [heq]; constructor

theorem isAmount_roundWithAccuracy (m : Nat) (e : Int) (accuracy : Accuracy) :
    IsAmount (roundWithAccuracy .binary64 .positive m e accuracy) := by
  obtain heq | ⟨m', e', hm', heq, _⟩ := roundWithAccuracy_cases .positive m e accuracy
  all_goals rw [heq]; constructor

theorem repack_isNaN (f : UnpackedFloat) : (repack f).isNaN = f.isNaN := by
  cases f with
  | notANumber => rw [repack_notANumber]
  | infinity s => rw [repack_infinity]
  | zero s => rw [repack_zero]
  | finite s m e hm =>
    obtain ⟨_, heq⟩ | ⟨_, heq | ⟨m', e', hm', heq⟩⟩ := repack_finite s (e := e) hm
    all_goals rw [heq]; rfl

section

variable {f g : UnpackedFloat}

theorem IsAmount.isNaN_eq_false (h : IsAmount f) : f.isNaN = false := by
  cases h <;> rfl

theorem IsAmount.beq_zero_iff (h : IsAmount f) :
    f.beq (.zero .positive) = true ↔ f = .zero .positive := by
  cases h <;> simp [UnpackedFloat.beq, UnpackedFloat.compare]

/-- A product is an amount again, unless one factor is zero and the other one infinite. -/
theorem IsAmount.mul (hf : IsAmount f) (hg : IsAmount g) :
    IsAmount (mul .binary64 f g)
      ∨ UnpackedFloat.mul .binary64 f g = .notANumber
        ∧ (f.isInf = true ∧ g = .zero .positive ∨ f = .zero .positive ∧ g.isInf = true) := by
  cases hf with
  | infinity =>
    cases hg with
    | infinity => exact .inl .infinity
    | zero => exact .inr ⟨rfl, .inl ⟨rfl, rfl⟩⟩
    | finite hm => exact .inl .infinity
  | zero =>
    cases hg with
    | infinity => exact .inr ⟨rfl, .inr ⟨rfl, rfl⟩⟩
    | zero => exact .inl .zero
    | finite hm => exact .inl .zero
  | finite hm =>
    cases hg with
    | infinity => exact .inl .infinity
    | zero => exact .inl .zero
    | finite hm' => exact .inl (isAmount_roundWithAccuracy _ _ _)

theorem IsAmount.mul_isNaN_iff (hf : IsAmount f) (hg : IsAmount g) :
    (UnpackedFloat.mul .binary64 f g).isNaN = true
      ↔ f.isInf = true ∧ g = .zero .positive ∨ f = .zero .positive ∧ g.isInf = true := by
  refine ⟨fun hnan => ?_, ?_⟩
  · rcases hf.mul hg with hamount | ⟨_, hcase⟩
    · rw [hamount.isNaN_eq_false] at hnan
      cases hnan
    · exact hcase
  · rintro (⟨hinf, rfl⟩ | ⟨rfl, hinf⟩)
    · cases hf with
      | infinity => rfl
      | _ => cases hinf
    · cases hg with
      | infinity => rfl
      | _ => cases hinf

/-- What is infinite stays so under multiplication, unless by zero. -/
theorem IsAmount.mul_of_isInf (hf : IsAmount f) (hg : IsAmount g) (hinf : f.isInf = true)
    (hzero : g ≠ .zero .positive) : UnpackedFloat.mul .binary64 f g = .infinity .positive := by
  cases hf with
  | infinity =>
    cases hg with
    | zero => exact absurd rfl hzero
    | _ => rfl
  | _ => cases hinf

theorem normalize_isNaN (m e : Int) (s : Sign) : (UnpackedFloat.normalize .binary64 m e s).isNaN = false := by
  have hround : ∀ s m e accuracy, (roundWithAccuracy .binary64 s m e accuracy).isNaN = false := by
    intro s m e accuracy
    obtain heq | ⟨_, _, _, heq, _⟩ := roundWithAccuracy_cases s m e accuracy <;> rw [heq] <;> rfl
  unfold UnpackedFloat.normalize
  split
  · exact hround _ _ _ _
  · rfl
  · exact hround _ _ _ _

theorem IsAmount.add_isNaN (hf : IsAmount f) (hg : IsAmount g) :
    (add .binary64 f g).isNaN = false := by
  cases hf with
  | finite hm =>
    cases hg with
    | finite hm' => exact normalize_isNaN _ _ _
    | _ => rfl
  | _ => cases hg <;> rfl

/-- A difference of amounts is NaN only if both are infinite. -/
theorem IsAmount.sub_isNaN_iff (hf : IsAmount f) (hg : IsAmount g) :
    (sub .binary64 f g).isNaN = true ↔ f.isInf = true ∧ g.isInf = true := by
  cases hf with
  | infinity =>
    cases hg with
    | infinity => exact iff_of_true rfl ⟨rfl, rfl⟩
    | _ => exact iff_of_false nofun fun h => nomatch h.2
  | zero => cases hg <;> exact iff_of_false nofun fun h => nomatch h.1
  | finite hm =>
    refine iff_of_false ?_ fun h => nomatch h.1
    cases hg with
    | finite hm' => rw [UnpackedFloat.sub, normalize_isNaN]; exact Bool.false_ne_true
    | _ => nofun

/-- A hundred. -/
def hundred : UnpackedFloat :=
  .finite .positive (100 * 2 ^ 46) (-46) (by decide)

theorem IsAmount.div_hundred (hf : IsAmount f) : IsAmount (div .binary64 f hundred) := by
  cases hf with
  | infinity => exact .infinity
  | zero => exact .zero
  | finite hm => exact isAmount_roundWithAccuracy _ _ _

/-- A hundredth of a finite double is far from overflowing. -/
theorem div_hundred_cases {m : Nat} {e : Int} (hm : 0 < m) (hlt : m < 2 ^ 53) (he : e ≤ 971) :
    div .binary64 (.finite .positive m e hm) hundred = .zero .positive
      ∨ ∃ m' e' hm', div .binary64 (.finite .positive m e hm) hundred
        = .finite .positive m' e' hm' ∧ e' < 972 := by
  have hlog : m.log2 < 53 := (Nat.log2_lt (by omega)).mpr hlt
  have hself : m < 2 ^ (m.log2 + 1) := Nat.lt_log2_self
  -- the quotient is taken with an exponent that leaves it few bits
  let target : Int := min (e + 46) (max ((m.log2 : Int) + 1 + e - 7 - 53) (-1074))
  have hquotient : m <<< (e + 46 - target).toNat / (100 * 2 ^ 46) < 2 ^ 54 := by
    have hshift : (e + 46 - target).toNat ≤ 105 - m.log2 := by omega
    rw [Nat.shiftLeft_eq]
    refine (Nat.div_lt_iff_lt_mul (by decide)).mpr ?_
    calc m * 2 ^ (e + 46 - target).toNat
        < 2 ^ (m.log2 + 1) * 2 ^ (e + 46 - target).toNat :=
          Nat.mul_lt_mul_of_pos_right hself (Nat.two_pow_pos _)
      _ ≤ 2 ^ (m.log2 + 1) * 2 ^ (105 - m.log2) :=
          Nat.mul_le_mul_left _ (Nat.pow_le_pow_right (by decide) hshift)
      _ = 2 ^ 106 := by rw [← Nat.pow_add]; congr 1; omega
      _ ≤ 2 ^ 54 * (100 * 2 ^ 46) := by decide
  have hdiv : div .binary64 (.finite .positive m e hm) hundred
      = roundWithAccuracy .binary64 .positive (m <<< (e + 46 - target).toNat / (100 * 2 ^ 46))
          target (accuracyOfFraction (m <<< (e + 46 - target).toNat % (100 * 2 ^ 46))
            (100 * 2 ^ 46)) := rfl
  obtain heq | ⟨m', e', hm', heq, he'⟩ := roundWithAccuracy_cases .positive
    (m <<< (e + 46 - target).toNat / (100 * 2 ^ 46)) target (accuracyOfFraction
      (m <<< (e + 46 - target).toNat % (100 * 2 ^ 46)) (100 * 2 ^ 46))
  · exact .inl (hdiv.trans heq)
  · refine .inr ⟨m', e', hm', hdiv.trans heq, ?_⟩
    have := he' hquotient
    omega

end

theorem mantissa_lt_of_unpack {x : Float} {s : Sign} {m : Nat} {e : Int} {hm : 0 < m}
    (h : x.toModel.unpack = .finite s m e hm) : m < 2 ^ 53 ∧ e ≤ 971 := by
  rw [unpack_toModel, unpacked] at h
  have hfield := (@unpackExponent .binary64 x.toBits.toBitVec).isLt
  have hfraction := (@unpackMantissa .binary64 x.toBits.toBitVec).isLt
  have hbits : (2 : Nat) ^ Format.binary64.mantissaBitsWithoutImplicit = 2 ^ 52 := rfl
  rw [hbits] at hfraction
  split at h
  · split at h <;> cases h
  · rename_i hall
    have hfinite : (@unpackExponent .binary64 x.toBits.toBitVec).toNat ≠ 2047 := fun hnat =>
      hall (BitVec.eq_of_toNat_eq hnat)
    split at h
    · split at h
      · cases h
      · cases h
        omega
    · cases h
      have hsize : (2 : Nat) ^ Format.binary64.exponentBits = 2048 := rfl
      omega

section

variable {x y : Float}

theorem Amount.isNaN_eq_false (h : Amount x) : x.isNaN = false :=
  IsAmount.isNaN_eq_false h

theorem Amount.eq_zero_iff (h : Amount x) : (x == 0.0) = true ↔ x.toModel.unpack = .zero .positive :=
  IsAmount.beq_zero_iff h

theorem Amount.mul_isNaN_iff (hx : Amount x) (hy : Amount y) :
    (x * y).isNaN = true
      ↔ x.isInf = true ∧ (y == 0.0) = true ∨ (x == 0.0) = true ∧ y.isInf = true := by
  have hunpacked := IsAmount.mul_isNaN_iff hx hy
  rw [← repack_isNaN] at hunpacked
  rw [hx.eq_zero_iff, hy.eq_zero_iff]
  exact hunpacked

theorem Amount.mul (hx : Amount x) (hy : Amount y) (h : (x * y).isNaN = false) :
    Amount (x * y) := by
  have hnan : (UnpackedFloat.mul .binary64 x.toModel.unpack y.toModel.unpack).isNaN = false := by
    rw [← repack_isNaN]
    exact h
  rcases IsAmount.mul hx hy with hamount | ⟨heq, _⟩
  · exact hamount.repack
  · rw [heq] at hnan
    cases hnan

theorem Amount.mul_of_isInf (hx : Amount x) (hy : Amount y) (hinf : x.isInf = true)
    (hzero : ¬ (y == 0.0) = true) : (x * y).isInf = true := by
  rw [hy.eq_zero_iff] at hzero
  show (repack (.mul .binary64 x.toModel.unpack y.toModel.unpack)).isInf = true
  rw [IsAmount.mul_of_isInf hx hy hinf hzero, repack_infinity]
  rfl

theorem Amount.add_isNaN (hx : Amount x) (hy : Amount y) : (x + y).isNaN = false := by
  rw [← IsAmount.add_isNaN hx hy, ← repack_isNaN]
  rfl

theorem Amount.sub_isNaN_iff (hx : Amount x) (hy : Amount y) :
    (x - y).isNaN = true ↔ x.isInf = true ∧ y.isInf = true := by
  have hunpacked := IsAmount.sub_isNaN_iff hx hy
  rw [← repack_isNaN] at hunpacked
  exact hunpacked

theorem Amount.div_hundred (hx : Amount x) : Amount (x / 100.0) :=
  (IsAmount.div_hundred hx).repack

theorem Amount.div_hundred_isInf (hx : Amount x) : (x / 100.0).isInf = x.isInf := by
  show (repack (.div .binary64 x.toModel.unpack hundred)).isInf = x.toModel.unpack.isInf
  cases hunpack : x.toModel.unpack with
  | notANumber => rw [Amount, hunpack] at hx; cases hx
  | infinity s => cases s <;> rfl
  | zero s => cases s <;> rfl
  | finite s m e hm =>
    obtain ⟨hlt, he⟩ := mantissa_lt_of_unpack hunpack
    obtain rfl : s = .positive := by rw [Amount, hunpack] at hx; cases hx; rfl
    obtain heq | ⟨m', e', hm', heq, he'⟩ := div_hundred_cases hm hlt he
    · rw [heq, repack_zero]; rfl
    · rw [heq]
      obtain ⟨hlarge, _⟩ | ⟨_, heq' | ⟨_, _, _, heq'⟩⟩ := repack_finite .positive (e := e') hm'
      · omega
      all_goals rw [heq']; rfl

end

/-! ## §3 Literals -/

theorem amount_zero : Amount 0.0 := by
  rw [Amount, show (0.0 : Float).toModel.unpack = .zero .positive from rfl]
  exact .zero

theorem amount_infinity : Amount (infinity false) := by
  rw [Amount, show (infinity false).toModel.unpack = .infinity .positive from rfl]
  exact .infinity

/-- Bits up to those of infinity make amounts. -/
theorem amount_ofBits {n : Nat} (hn : n ≤ Quotient.infinityBits) :
    Amount (Float.ofBits (UInt64.ofNat n)) := by
  have hordered := isOrdered_ofNat hn
  have hsign : Sign.ofBitVec (@unpackSign .binary64 (UInt64.ofNat n).toBitVec) = .positive := by
    have hbit : @unpackSign .binary64 (UInt64.ofNat n).toBitVec = 0#1 := by
      apply BitVec.eq_of_toNat_eq
      rw [toNat_unpackSign, UInt64.toNat_toBitVec, toNat_ofNat_of_le hn]
      rw [Quotient.infinityBits] at hn
      show n / 2 ^ 63 = 0
      omega
    rw [hbit]
    rfl
  rw [Amount, unpack_toModel, toBits_ofBits hordered, hsign, unpacked]
  split
  · rw [if_pos (unpackMantissa_eq_zero hordered ‹_›)]
    exact .infinity
  · split
    · split
      · exact .zero
      · exact .finite _
    · exact .finite _

theorem amount_toFloat (v : Quotient) : Amount v.toFloat := by
  unfold Quotient.toFloat
  split
  · exact amount_zero
  · exact amount_ofBits (Nat.min_le_left _ _)

/-- A decimal is read as an amount, however long it is. -/
theorem amount_ofDecimal (mantissa : Nat) (exponent : Int) : Amount (ofDecimal mantissa exponent) := by
  unfold ofDecimal
  simp only
  split
  · exact amount_zero
  · split
    · exact amount_infinity
    · exact amount_toFloat _

/-- A number of too many digits is read as infinity. -/
theorem ofDecimal_of_digitCount {mantissa : Nat} (h : 310 < digitCount mantissa) :
    ofDecimal mantissa 0 = infinity false := by
  have hpos : mantissa ≠ 0 := fun hzero => by
    rw [hzero, digitCount_zero] at h
    omega
  have hsmall : ¬ (mantissa = 0 || decide (0 + (digitCount mantissa : Int) < leastDecade)) = true := by
    have hleast : ¬ 0 + (digitCount mantissa : Int) < leastDecade := by rw [leastDecade]; omega
    simp only [Bool.or_eq_true, decide_eq_true_eq, hpos, hleast, or_self, not_false_eq_true]
  have hlarge : greatestDecade < 0 + (digitCount mantissa : Int) := by
    rw [greatestDecade]
    omega
  simp only [ofDecimal, if_neg hsmall, if_pos hlarge]

theorem neg_isNaN (x : Float) : (-x).isNaN = x.isNaN := by
  show (repack x.toModel.unpack.neg).isNaN = x.toModel.unpack.isNaN
  rw [repack_isNaN]
  cases x.toModel.unpack <;> rfl

section

variable {x : Float}

theorem unpack_of_isNaN (h : x.isNaN = true) : x.toModel.unpack = .notANumber := by
  have hunpack : x.toModel.unpack.isNaN = true := h
  generalize x.toModel.unpack = f at hunpack ⊢
  cases f with
  | notANumber => rfl
  | _ => cases hunpack

theorem div_isNaN (h : x.isNaN = true) (y : Float) : (x / y).isNaN = true := by
  show (repack (.div .binary64 x.toModel.unpack y.toModel.unpack)).isNaN = true
  rw [repack_isNaN, unpack_of_isNaN h]
  rfl

theorem add_isNaN (y : Float) (h : x.isNaN = true) : (y + x).isNaN = true := by
  show (repack (.add .binary64 y.toModel.unpack x.toModel.unpack)).isNaN = true
  rw [repack_isNaN, unpack_of_isNaN h]
  cases y.toModel.unpack <;> rfl

theorem sub_isNaN (y : Float) (h : x.isNaN = true) : (y - x).isNaN = true := by
  show (repack (.sub .binary64 y.toModel.unpack x.toModel.unpack)).isNaN = true
  rw [repack_isNaN, unpack_of_isNaN h]
  cases y.toModel.unpack <;> rfl

end

theorem ofInt_isNaN (n : Int) : (ofInt n).isNaN = false := by
  unfold ofInt
  simp only
  split
  · rw [neg_isNaN, (amount_toFloat _).isNaN_eq_false]
  · exact (amount_toFloat _).isNaN_eq_false

end Number

open Text Number Script

/-! ## §4 Percentages -/

namespace Percentage

/-- The value of a percentage is a product of zero and infinity, or a difference of infinities. -/
def Undefined (q : Percentage) : Prop :=
  match q.form with
  | .share => (q.percent / 100.0 == 0.0) = true ∧ q.base.isInf = true
      ∨ q.percent.isInf = true ∧ (q.base == 0.0) = true
  | .increase => (q.percent == 0.0) = true ∧ q.base.isInf = true
      ∨ q.percent.isInf = true ∧ (q.base == 0.0) = true
  | .decrease | .off => q.base.isInf = true ∨ q.percent.isInf = true ∧ (q.base == 0.0) = true

/-- Only a number that is too long to be finite leaves a percentage without a value. -/
theorem Undefined.isInf {q : Percentage} (h : q.Undefined) :
    q.base.isInf = true ∨ q.percent.isInf = true := by
  unfold Undefined at h
  split at h
  · exact h.imp And.right And.left
  · exact h.imp And.right And.left
  · exact h.imp_right And.left
  · exact h.imp_right And.left

section

variable {percent base : Float} (hpercent : Amount percent) (hbase : Amount base)

include hpercent hbase

theorem share_isNaN_iff :
    (percent / 100.0 * base).isNaN = true
      ↔ (percent / 100.0 == 0.0) = true ∧ base.isInf = true
        ∨ percent.isInf = true ∧ (base == 0.0) = true := by
  rw [hpercent.div_hundred.mul_isNaN_iff hbase, hpercent.div_hundred_isInf, or_comm]

theorem product_isNaN_iff :
    (base * percent).isNaN = true
      ↔ (percent == 0.0) = true ∧ base.isInf = true
        ∨ percent.isInf = true ∧ (base == 0.0) = true := by
  rw [hbase.mul_isNaN_iff hpercent, and_comm, and_comm (a := (base == 0.0) = true)]

theorem increase_isNaN_iff :
    (base + base * percent / 100.0).isNaN = true
      ↔ (percent == 0.0) = true ∧ base.isInf = true
        ∨ percent.isInf = true ∧ (base == 0.0) = true := by
  rw [← product_isNaN_iff hpercent hbase]
  cases hproduct : (base * percent).isNaN with
  | true => exact iff_of_true (add_isNaN base (div_isNaN hproduct _)) rfl
  | false =>
    rw [hbase.add_isNaN (hbase.mul hpercent hproduct).div_hundred]

theorem decrease_isNaN_iff :
    (base - base * percent / 100.0).isNaN = true
      ↔ base.isInf = true ∨ percent.isInf = true ∧ (base == 0.0) = true := by
  cases hproduct : (base * percent).isNaN with
  | true =>
    refine iff_of_true (sub_isNaN base (div_isNaN hproduct _)) ?_
    exact ((product_isNaN_iff hpercent hbase).mp hproduct).imp_left And.right
  | false =>
    have hdefined := mt (product_isNaN_iff hpercent hbase).mpr (Bool.not_eq_true _ ▸ hproduct)
    have hchange := (hbase.mul hpercent hproduct).div_hundred
    rw [hbase.sub_isNaN_iff hchange, (hbase.mul hpercent hproduct).div_hundred_isInf]
    constructor
    · exact fun h => .inl h.1
    · rintro (hinf | hzero)
      · exact ⟨hinf, hbase.mul_of_isInf hpercent hinf fun hzero => hdefined (.inl ⟨hzero, hinf⟩)⟩
      · exact absurd (.inr hzero) hdefined

end

/-- The value of a percentage of amounts is NaN exactly where it is undefined. -/
theorem value_isNaN_iff_undefined {q : Percentage} (hpercent : Amount q.percent)
    (hbase : Amount q.base) : q.value.isNaN = true ↔ q.Undefined := by
  obtain ⟨form, percent, base⟩ := q
  cases form with
  | share => exact share_isNaN_iff hpercent hbase
  | increase => exact increase_isNaN_iff hpercent hbase
  | decrease => exact decrease_isNaN_iff hpercent hbase
  | off => exact decrease_isNaN_iff hpercent hbase

/-- A share of a whole number is read, whatever the digits and however many. -/
theorem read?_share (percent base : List Char) (hpercent : ∀ c ∈ percent, isAsciiDigit c = true)
    (hsome : percent ≠ []) (hbase : ∀ c ∈ base, isAsciiDigit c = true) (hsome' : base ≠ []) :
    read? (percent ++ '%' :: ' ' :: 'o' :: 'f' :: ' ' :: base)
      = some ⟨.share, ofDecimal (ofDigits percent) 0, ofDecimal (ofDigits base) 0⟩ := by
  obtain ⟨l, hplain, htext, hvalue⟩ := plain_whole hpercent hsome []
  obtain ⟨l', hplain', htext', hvalue'⟩ := plain_whole hbase hsome' []
  rw [List.append_nil, List.append_nil] at htext htext'
  have hblank : AreBlank [' '] := by simp [AreBlank, show isBlank ' ' = true from rfl]
  have hspells : Spells (l.text ++ '%' :: ([' '] ++ (['o', 'f'] ++ ([' '] ++ l'.text))))
      ⟨.share, l.value, l'.value⟩ :=
    .phrase rfl hplain hplain' hblank (List.cons_ne_nil _ _) hblank (List.cons_ne_nil _ _)
  rw [read?_eq_some_iff, hvalue, hvalue', htext, htext']
  exact hspells

theorem amount_literal (l : Literal) : Amount l.value :=
  amount_ofDecimal _ _

/-- The numbers of a percentage that is read are amounts. -/
theorem amounts_of_read? {text : List Char} {q : Percentage} (h : read? text = some q) :
    Amount q.percent ∧ Amount q.base := by
  cases spells_of_read? h <;> exact ⟨amount_literal _, amount_literal _⟩

end Percentage

/-! ## §5 Evaluation -/

/-- The number that a value is, is one. -/
theorem numberOf_isNaN {v : Value} {x : Float} (h : numberOf v = .ok x) : x.isNaN = false := by
  unfold numberOf at h
  split at h
  · split at h
    · cases h
    · rename_i hnan
      cases h
      exact Bool.not_eq_true _ ▸ hnan
  · cases h
    exact ofInt_isNaN _
  · cases h

/-- No expression evaluates to NaN, whatever functions it calls. -/
theorem Script.Program.evaluate_isNaN {p : Program} {expression : List Char} {scope : Scope}
    {x : Float} (h : p.evaluate expression scope = .ok x) : x.isNaN = false := by
  unfold Program.evaluate at h
  split at h
  · cases h
  · split at h
    · cases h
    · exact numberOf_isNaN h

/-! ## §6 Passes -/

/-- The value of the line is NaN. -/
def ResultLine.isNaN (r : ResultLine) : Bool :=
  r.value?.any Float.isNaN

/-- The percentage that a line spells, if it does not assign. -/
def Line.percentage? (line : Line) : Option Percentage :=
  match classify (normalize line.text.toList) with
  | .assignment _ _ => none
  | .expression text => Percentage.read? text

theorem Line.percentage?_of_assignment {line : Line} {name right : List Char}
    (h : classify (normalize line.text.toList) = .assignment name right) :
    line.percentage? = none := by
  simp only [Line.percentage?, h]

theorem Line.percentage?_of_expression {line : Line} {text : List Char}
    (h : classify (normalize line.text.toList) = .expression text) :
    line.percentage? = Percentage.read? text := by
  simp only [Line.percentage?, h]

theorem lineStep_isNaN_iff (p : Program) (scope : Scope) (line : Line) :
    (lineStep p.evaluate scope line).result.isNaN = true
      ↔ ∃ q, line.percentage? = some q ∧ q.Undefined := by
  have hgives := gives_lineStep p.evaluate scope line
  generalize (lineStep p.evaluate scope line).result = r at hgives
  cases hgives with
  | blank hblank =>
    have hkind : classify (normalize line.text.toList) = .expression [] := hblank ▸ classify_nil
    rw [Line.percentage?_of_expression hkind, show Percentage.read? [] = none from rfl]
    exact iff_of_false nofun nofun
  | bound hkind hvalue =>
    rw [Line.percentage?_of_assignment hkind]
    refine iff_of_false (fun hnan => ?_) nofun
    exact Bool.false_ne_true (Program.evaluate_isNaN hvalue ▸ hnan)
  | waiting hkind _ _ | refused hkind _ _ =>
    rw [Line.percentage?_of_assignment hkind]
    exact iff_of_false nofun nofun
  | percentage _ hkind hvalue =>
    obtain ⟨q, hread, rfl⟩ := Option.map_eq_some_iff.mp hvalue
    obtain ⟨hpercent, hbase⟩ := Percentage.amounts_of_read? hread
    rw [Line.percentage?_of_expression hkind, hread]
    exact (Percentage.value_isNaN_iff_undefined hpercent hbase).trans (by simp)
  | value _ hkind hgeneral hvalue =>
    rw [Line.percentage?_of_expression hkind, Option.map_eq_none_iff.mp hgeneral]
    refine iff_of_false (fun hnan => ?_) nofun
    exact Bool.false_ne_true (Program.evaluate_isNaN hvalue ▸ hnan)
  | failed _ hkind hgeneral _ =>
    rw [Line.percentage?_of_expression hkind, Option.map_eq_none_iff.mp hgeneral]
    exact iff_of_false nofun nofun

/-- **A result is NaN exactly where its line spells an undefined percentage.** An assignment and any
other expression either have a number or fail, whatever functions there are. -/
theorem recalculate_isNaN_iff (p : Program) (lines : List Line) (k : Nat) :
    (∃ r, (recalculate p.evaluate lines)[k]? = some r ∧ r.isNaN = true)
      ↔ ∃ line q, lines[k]? = some line ∧ line.percentage? = some q ∧ q.Undefined := by
  cases hline : lines[k]? with
  | none =>
    have hnone : (recalculate p.evaluate lines)[k]? = none := by
      rw [List.getElem?_eq_none_iff] at hline ⊢
      rwa [recalculate_length]
    simp [hnone]
  | some line =>
    simp [recalculate_getElem? p.evaluate hline, lineStep_isNaN_iff]

/-- Nothing of a number that is too long to be finite. -/
def shareOfInfinity : List Char :=
  ['0'] ++ '%' :: ' ' :: 'o' :: 'f' :: ' ' :: '1' :: List.replicate 310 '0'

theorem read?_shareOfInfinity :
    Percentage.read? shareOfInfinity = some ⟨.share, ofDecimal 0 0, infinity false⟩ := by
  have hdigits : ∀ c ∈ '1' :: List.replicate 310 '0', isAsciiDigit c = true := by
    intro c hc
    rcases List.mem_cons.mp hc with rfl | hc
    · rfl
    · rw [List.eq_of_mem_replicate hc]
      rfl
  have hcount : 310 < digitCount (ofDigits ('1' :: List.replicate 310 '0')) := by
    rw [show ofDigits ('1' :: List.replicate 310 '0') = 10 ^ 310 by decide +kernel]
    decide +kernel
  have hread := Percentage.read?_share ['0'] ('1' :: List.replicate 310 '0')
    (by simp [isAsciiDigit]) (List.cons_ne_nil _ _) hdigits (List.cons_ne_nil _ _)
  rw [ofDecimal_of_digitCount hcount] at hread
  exact hread

theorem percentage?_shareOfInfinity (line : Line) (h : line.text.toList = shareOfInfinity) :
    line.percentage? = some ⟨.share, ofDecimal 0 0, infinity false⟩ := by
  have hnormal : normalize shareOfInfinity = shareOfInfinity := by decide +kernel
  have hkind : classify shareOfInfinity = .expression shareOfInfinity := by decide +kernel
  rw [Line.percentage?_of_expression (by rw [h, hnormal, hkind]), read?_shareOfInfinity]

/-- A percentage without a value is shown as a result. -/
theorem recalculate_shareOfInfinity :
    ∃ r, recalculate Program.empty.evaluate [⟨1, String.ofList shareOfInfinity⟩] = [r]
      ∧ r.isNaN = true := by
  have hundefined : Percentage.Undefined ⟨.share, ofDecimal 0 0, infinity false⟩ :=
    .inl ⟨by decide +kernel, by decide +kernel⟩
  have hpercentage := percentage?_shareOfInfinity ⟨1, String.ofList shareOfInfinity⟩
    String.toList_ofList
  exact ⟨_, resultsFrom_cons _ _ _ _, (lineStep_isNaN_iff _ _ _).mpr ⟨_, hpercentage, hundefined⟩⟩

end SumSheet
