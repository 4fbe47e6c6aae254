/-
SumSheet.Proofs.DisplayOrder — numbers are shown in their order.

What a number is shown as is a text, and the text denotes a number again,
which is another one in general. Both the unit of the last digit and the
notation change with the power of ten, and a carry may change them once
more. None of this is looked at where the order is concerned: a number is
rounded to a whole number of the units of its own decade, the whole number
may be one decade too large, and numbers of different decades are
separated by the power of ten between them (`IsRounded.mono`).

The order of doubles is that of the language, which compares signs,
exponents and mantissas; it is the order of the numbers that they are
because mantissas fill their bits.

  §1 Rounding — rounding to significant digits keeps the order.
  §2 Doubles  — what it means that a double is not greater than another.
  §3 Texts    — the number that a text denotes.
  §4 Shown    — the numbers that doubles are shown as.
-/
import Mathlib
import SumSheet.Proofs.NearestDoubles

namespace SumSheet

open Text Float.Model.UnpackedFloat
open Float.Model (UnpackedFloat)

namespace Number

/-! ## §1 Rounding -/

section

variable {x y : ℚ}

theorem IsNearest.mono {n m : Nat} (hn : IsNearest x n) (hm : IsNearest y m) (h : x ≤ y) :
    n ≤ m := by
  by_contra hlt
  have hstep : (m : ℚ) + 1 ≤ n := by exact_mod_cast (by omega : m + 1 ≤ n)
  have hlow := (abs_le.mp hn.near).1
  have hhigh := (abs_le.mp hm.near).2
  -- both lie half way between two neighbours, and so are the same
  have hxy : x = y := by linarith
  exact hlt (hn.unique (hxy ▸ hm)).le

/-- Rounded in the units of its decade, a number does not leave it, but for its upper end. -/
theorem units_bounds {n : Nat} {e : Int} (hlow : 10 ^ e ≤ x) (hhigh : x < 10 ^ (e + 1))
    (hnear : IsNearest (x * 10 ^ (13 - e)) n) :
    (10 : ℚ) ^ e ≤ n * 10 ^ (e - 13) ∧ (n : ℚ) * 10 ^ (e - 13) ≤ 10 ^ (e + 1) := by
  have hle : x * 10 ^ (13 - e) ≤ ((10 ^ 14 : Nat) : ℚ) := by
    have hscaled := (scaled_lt_iff (e + 1) 14).mpr hhigh
    rw [show (14 : Int) - (e + 1) = 13 - e by ring] at hscaled
    exact_mod_cast hscaled.le
  have hge : ((10 ^ 13 : Nat) : ℚ) ≤ x * 10 ^ (13 - e) := by
    have hscaled := (le_scaled_iff (x := x) e 13 1).mpr (by rwa [mul_one])
    rw [mul_one] at hscaled
    exact_mod_cast hscaled
  have hleast : ((10 ^ 13 : Nat) : ℚ) ≤ n := by exact_mod_cast hnear.le_of_ge hge
  have hmost : (n : ℚ) ≤ 10 ^ (14 : Int) := by exact_mod_cast hnear.le_of_le hle
  constructor
  · rw [← power_eq e]
    exact mul_le_mul_of_nonneg_right hleast (ten_zpow_pos _).le
  · rw [show e - 13 = e + 1 - 14 by ring, ← ten_zpow_mul 14 (e + 1)]
    exact mul_le_mul_of_nonneg_right hmost (ten_zpow_pos _).le

variable {d d' : Decimal}

/-- A decimal is a whole number of units, in the decade of the number that is rounded to it. -/
theorem IsRounded.exists_nearest (h : IsRounded x d) : ∃ (n : Nat) (e : Int),
    10 ^ e ≤ x ∧ x < 10 ^ (e + 1) ∧ IsNearest (x * 10 ^ (13 - e)) n
      ∧ d.value = n * 10 ^ (e - 13) := by
  cases h with
  | @within n e hlow hhigh hnear hdigits =>
    exact ⟨n, e, hlow, hhigh, hnear, Decimal.value_eq n e⟩
  | @below e hlow hhigh =>
    refine ⟨10 ^ 14, e - 1, decade_le hlow, by rwa [sub_add_cancel], isNearest_carry hlow hhigh, ?_⟩
    rw [Decimal.value_power, show e - 1 - 13 = e - 14 by ring]
    exact_mod_cast (ten_zpow_mul 14 e).symm

theorem IsRounded.mono (h : IsRounded x d) (h' : IsRounded y d') (hle : x ≤ y) :
    d.value ≤ d'.value := by
  obtain ⟨n, e, hlow, hhigh, hnear, hvalue⟩ := h.exists_nearest
  obtain ⟨m, f, hlow', hhigh', hnear', hvalue'⟩ := h'.exists_nearest
  rw [hvalue, hvalue']
  have hdecade : e < f + 1 :=
    (zpow_lt_zpow_iff_right₀ (by norm_num)).mp (hlow.trans_lt (hle.trans_lt hhigh'))
  obtain hlt | rfl := (Int.lt_add_one_iff.mp hdecade).lt_or_eq
  · calc (n : ℚ) * 10 ^ (e - 13) ≤ 10 ^ (e + 1) := (units_bounds hlow hhigh hnear).2
      _ ≤ 10 ^ f := zpow_le_zpow_right₀ (by norm_num) hlt
      _ ≤ m * 10 ^ (f - 13) := (units_bounds hlow' hhigh' hnear').1
  · have hscaled : x * 10 ^ (13 - e) ≤ y * 10 ^ (13 - e) :=
      mul_le_mul_of_nonneg_right hle (ten_zpow_pos _).le
    have hdigits := hnear.mono hnear' hscaled
    gcongr

theorem IsRounded.value_pos (h : IsRounded x d) : 0 < d.value :=
  (ten_zpow_pos _).trans_le h.value_bounds.1

/-- The number that a number is shown as: its rounding, with the sign. -/
inductive IsShown : ℚ → ℚ → Prop
  | zero : IsShown 0 0
  | positive {x : ℚ} {d : Decimal} (h : IsRounded x d) : IsShown x d.value
  | negative {x : ℚ} {d : Decimal} (h : IsRounded (-x) d) : IsShown x (-d.value)

theorem IsShown.mono {r s : ℚ} (h : IsShown x r) (h' : IsShown y s) (hle : x ≤ y) : r ≤ s := by
  cases h with
  | zero =>
    cases h' with
    | zero => exact le_refl 0
    | positive h' => exact h'.value_pos.le
    | negative h' => linarith [h'.pos]
  | positive h =>
    have hpos := h.pos
    cases h' with
    | zero => linarith
    | positive h' => exact h.mono h' hle
    | negative h' => linarith [h'.pos]
  | negative h =>
    have hpos := h.value_pos
    cases h' with
    | zero => linarith
    | positive h' => linarith [h'.value_pos]
    | negative h' => exact neg_le_neg (h'.mono h (neg_le_neg hle))

end

/-! ## §2 Doubles -/

/-- The mantissa of an unpacked double fills its bits. -/
theorem isNormal_of_unpack {x : Float} {sign : Sign} {mantissa : Nat} {exponent : Int}
    {hpos : 0 < mantissa} (h : x.toModel.unpack = .finite sign mantissa exponent hpos)
    (negative : Bool) : (⟨negative, mantissa, exponent⟩ : Binary).IsNormal := by
  rw [unpack_toModel, unpacked] at h
  generalize @unpackExponent .binary64 x.toBits.toBitVec = field at h
  generalize @unpackMantissa .binary64 x.toBits.toBitVec = fraction at h
  have hfraction : fraction.toNat < 2 ^ 52 := fraction.isLt
  have hfield : field.toNat < 2 ^ 11 := field.isLt
  split at h
  · split at h <;> cases h
  · rename_i hall
    have hall : field.toNat ≠ 2047 := fun heq => hall (BitVec.eq_of_toNat_eq heq)
    split at h
    · split at h
      · cases h
      · cases h
        exact ⟨⟨by show fraction.toNat < 2 ^ 53; omega, le_refl (-1074),
          by show (-1074 : Int) ≤ _; omega⟩, .inl rfl⟩
    · rename_i hleast
      have hleast : field.toNat ≠ 0 := fun heq => hleast (BitVec.eq_of_toNat_eq heq)
      cases h
      exact ⟨⟨by show _ + _ < _; omega, by show _ ≤ _ - _; omega, by show _ - _ ≤ _; omega⟩,
        .inr (Nat.le_add_right _ _)⟩

/-- Exponents are compared first, and the mantissas of equal exponents next. -/
theorem Binary.IsNormal.value_le {b c : Binary} (hb : b.IsNormal) (hc : c.IsNormal)
    (h : ((compare b.exponent c.exponent).then (compare b.mantissa c.mantissa)).isLE = true) :
    b.value ≤ c.value := by
  rw [Ordering.isLE_then_iff_or] at h
  obtain hlt | ⟨heq, hle⟩ := h
  · exact (hb.value_lt hc (Int.compare_eq_lt.mp hlt)).le
  · have hexponent : b.exponent = c.exponent := Int.compare_eq_eq.mp heq
    have hmantissa : b.mantissa ≤ c.mantissa := Nat.isLE_compare.mp hle
    rw [value, value, hexponent]
    gcongr

/-- The order of doubles is that of their unpacked forms. -/
theorem isLE_of_le {a b : Float} (h : a ≤ b) :
    (a.toModel.unpack.compare b.toModel.unpack).any (·.isLE) = true := by
  have hle : Float.le a b = true := h
  exact of_decide_eq_true hle

section

variable {x : Float} {mantissa : Nat} {exponent : Int} {hpos : 0 < mantissa}

theorem exactValue_positive (h : x.toModel.unpack = .finite .positive mantissa exponent hpos) :
    exactValue x = (⟨false, mantissa, exponent⟩ : Binary).value :=
  exactValue_unpacked h

theorem exactValue_negative (h : x.toModel.unpack = .finite .negative mantissa exponent hpos) :
    exactValue x = -(⟨false, mantissa, exponent⟩ : Binary).value :=
  exactValue_unpacked h

theorem exactValue_none {sign : Sign} (h : x.toModel.unpack = .zero sign) : exactValue x = 0 := by
  rw [exactValue, h]

end

/-- The order of finite doubles is that of the numbers that they are. -/
theorem exactValue_le_of_le {a b : Float} (h : a ≤ b) (ha : a.isFinite = true)
    (hb : b.isFinite = true) : exactValue a ≤ exactValue b := by
  have hle := isLE_of_le h
  have ha : a.toModel.unpack.isFinite = true := ha
  have hb : b.toModel.unpack.isFinite = true := hb
  cases hx : a.toModel.unpack with
  | notANumber => rw [hx] at ha; cases ha
  | infinity sign => rw [hx] at ha; cases ha
  | zero sign =>
    rw [exactValue_none hx]
    cases hy : b.toModel.unpack with
    | notANumber => rw [hy] at hb; cases hb
    | infinity sign => rw [hy] at hb; cases hb
    | zero sign => rw [exactValue_none hy]
    | finite sign n f hn =>
      cases sign with
      | positive => exact exactValue_positive hy ▸ Binary.value_nonneg _
      | negative => rw [hx, hy] at hle; cases hle
  | finite sign m e hm =>
    have hnormal := isNormal_of_unpack hx false
    cases hy : b.toModel.unpack with
    | notANumber => rw [hy] at hb; cases hb
    | infinity sign => rw [hy] at hb; cases hb
    | zero sign' =>
      rw [exactValue_none hy]
      cases sign with
      | positive => rw [hx, hy] at hle; cases hle
      | negative => rw [exactValue_negative hx]; exact neg_nonpos.mpr (Binary.value_nonneg _)
    | finite sign' n f hn =>
      have hnormal' := isNormal_of_unpack hy false
      rw [hx, hy] at hle
      cases sign with
      | positive =>
        cases sign' with
        | positive =>
          rw [exactValue_positive hx, exactValue_positive hy]
          exact hnormal.value_le hnormal' hle
        | negative => cases hle
      | negative =>
        rw [exactValue_negative hx]
        cases sign' with
        | positive =>
          rw [exactValue_positive hy]
          linarith [Binary.value_nonneg ⟨false, m, e⟩, Binary.value_nonneg ⟨false, n, f⟩]
        | negative =>
          rw [exactValue_negative hy]
          have hle : ((compare e f).then (compare m n)).swap.isLE = true := hle
          rw [Ordering.swap_then, Int.compare_swap, Nat.compare_swap] at hle
          exact neg_le_neg (hnormal'.value_le hnormal hle)

end Number

/-! ## §3 Texts -/

/-- The number that a text without a sign denotes: that of a literal, or the one beyond all others,
which goes by its name. -/
inductive DenotesUnsigned : List Char → EReal → Prop
  | literal {text : List Char} {l : Literal} (htext : text = l.text) :
    DenotesUnsigned text (l.number : ℝ)
  | infinity {text : List Char} (htext : text = "Infinity".toList) : DenotesUnsigned text ⊤

/-- The number that a text denotes. A minus may stand in front. -/
inductive Denotes : String → EReal → Prop
  | plain {text : String} {p : EReal} (h : DenotesUnsigned text.toList p) : Denotes text p
  | minus {text : String} {body : List Char} {p : EReal} (htext : text.toList = '-' :: body)
    (h : DenotesUnsigned body p) : Denotes text (-p)

theorem LiteralExponent.isAsciiDigit_sign {x : LiteralExponent} {s : Char} (hs : s ∈ x.sign) :
    isAsciiDigit s = false := by
  obtain rfl | rfl := x.sign_eq s hs <;> rfl

/-- The sign of an exponent ends where its digits begin. -/
theorem LiteralExponent.value_congr {x y : LiteralExponent} (h : x.text = y.text) :
    x.value = y.value := by
  have hno {x y : LiteralExponent} (hx : x.sign = none) {s : Char} (hs : s ∈ y.sign)
      (h : x.digits = s :: y.digits) : False := by
    have hdigit := x.isDigit_digits s (h ▸ List.mem_cons_self)
    rw [isAsciiDigit_sign hs] at hdigit
    cases hdigit
  have htail := (List.cons.inj h).2
  have hparts : x.sign = y.sign ∧ x.digits = y.digits := by
    cases hx : x.sign with
    | none =>
      cases hy : y.sign with
      | none => simpa [hx, hy] using htail
      | some s => exact (hno hx hy (by simpa [hx, hy] using htail)).elim
    | some s =>
      cases hy : y.sign with
      | none => exact (hno hy hx (by simpa [hx, hy] using htail.symm)).elim
      | some t => simpa [hx, hy] using htail
  rw [value, value, hparts.1, hparts.2]

theorem Literal.exponentValue_congr {l k : Literal} (h : l.exponentText = k.exponentText) :
    l.exponentValue = k.exponentValue := by
  unfold exponentText at h
  unfold exponentValue
  cases hl : l.exponent with
  | none =>
    cases hk : k.exponent with
    | none => rfl
    | some y => rw [hl, hk] at h; cases h
  | some x =>
    cases hk : k.exponent with
    | none => rw [hl, hk] at h; cases h
    | some y => rw [hl, hk] at h; exact LiteralExponent.value_congr h

/-- A literal has the parts that are read off its text. -/
theorem Literal.number_congr {l k : Literal} (h : l.text = k.text) : l.number = k.number := by
  have hends : EndsNumber [] := by simp [EndsNumber]
  have hread := Formula.numeral?_text l hends
  rw [h, Formula.numeral?_text k hends] at hread
  simp only [Option.some.injEq, Prod.mk.injEq, Formula.Numeral.mk.injEq, and_true] at hread
  obtain ⟨hwhole, hplaces, hexponent⟩ := hread
  rw [number, number, hwhole, hplaces, exponentValue_congr hexponent]

theorem Literal.text_ne_cons (l : Literal) {c : Char} {rest : List Char}
    (hdigit : isAsciiDigit c = false) (hpoint : c ≠ '.') : l.text ≠ c :: rest := by
  intro h
  obtain ⟨d, ds, htext, hd⟩ := Formula.head_text l
  obtain ⟨rfl, -⟩ := List.cons.inj (h.symm.trans htext)
  obtain hd | hd := hd
  · rw [hdigit] at hd
    cases hd
  · exact hpoint hd

theorem DenotesUnsigned.unique {text : List Char} {p q : EReal} (hp : DenotesUnsigned text p)
    (hq : DenotesUnsigned text q) : p = q := by
  cases hp with
  | @literal l hl =>
    cases hq with
    | literal hk => rw [Literal.number_congr (hl.symm.trans hk)]
    | infinity hname =>
      exact absurd (hl.symm.trans hname) (l.text_ne_cons (by decide) (by decide))
  | infinity hname =>
    cases hq with
    | @literal k hk =>
      exact absurd (hk.symm.trans hname) (k.text_ne_cons (by decide) (by decide))
    | infinity _ => rfl

theorem DenotesUnsigned.ne_minus {text : List Char} {p : EReal} (h : DenotesUnsigned text p)
    (body : List Char) : text ≠ '-' :: body := by
  cases h with
  | @literal l hl => exact hl ▸ l.text_ne_cons (by decide) (by decide)
  | infinity hname => exact hname ▸ by simp

/-- A text denotes one number at most. -/
theorem Denotes.unique {text : String} {p q : EReal} (hp : Denotes text p) (hq : Denotes text q) :
    p = q := by
  cases hp with
  | plain hp =>
    cases hq with
    | plain hq => exact hp.unique hq
    | minus htext _ => exact absurd htext (hp.ne_minus _)
  | minus htext hp =>
    cases hq with
    | plain hq => exact absurd htext (hq.ne_minus _)
    | minus htext' hq =>
      obtain ⟨-, rfl⟩ := List.cons.inj (htext.symm.trans htext')
      rw [hp.unique hq]

/-! ## §4 Shown -/

namespace Number

/-- The number that a double is shown as. -/
inductive ShownAs (x : Float) : EReal → Prop
  | finite {r : ℚ} (hfinite : x.isFinite = true) (h : IsShown (exactValue x) r) : ShownAs x (r : ℝ)
  | infinity (h : x.toModel.unpack = .infinity .positive) : ShownAs x ⊤
  | minusInfinity (h : x.toModel.unpack = .infinity .negative) : ShownAs x ⊥

theorem isNegative_of_unpack {x : Float} {sign : Sign} (h : x.toModel.unpack = .infinity sign) :
    isNegative x = true ↔ sign = .negative := by
  have hbit := toNat_unpackSign x.toBits.toBitVec
  rw [unpack_toModel, unpacked] at h
  rw [isNegative, pow2_eq, ← UInt64.toNat_toBitVec, ← hbit, beq_iff_eq]
  generalize @unpackSign .binary64 x.toBits.toBitVec = bit at h
  split at h
  · split at h
    · cases h
      rw [Sign.ofBitVec]
      split
      · rename_i hzero
        simp [hzero]
      · rename_i hzero
        have hlt := bit.isLt
        have hne : bit.toNat ≠ 0 := fun heq => hzero (BitVec.eq_of_toNat_eq heq)
        exact iff_of_true (by omega) rfl
    · cases h
  · split at h
    · split at h <;> cases h
    · cases h

theorem exists_shownAs_of_isFinite {x : Float} (h : x.isFinite = true) :
    ∃ p, ShownAs x p ∧ Denotes (display x) p := by
  obtain ⟨b, hb, -, hvalue⟩ := exists_of_isFinite h
  have htext := display_of_ofFloat? hb
  obtain hzero | hpos := Nat.eq_zero_or_pos b.mantissa
  · have hnone : exactValue x = 0 := by
      rw [hvalue, Binary.signed, Binary.value, hzero]
      simp
    have hshown : IsShown (exactValue x) 0 := by
      rw [hnone]
      exact .zero
    obtain ⟨l, hl, hnumber, -⟩ := spells_zero
    refine ⟨_, .finite h hshown, .plain ?_⟩
    rw [htext, Binary.text, if_pos hzero, ← hnumber]
    exact .literal hl.symm
  · have hrounded := isRounded_significant (Quotient.isPositive_ofBinary hpos)
    rw [Quotient.value_ofBinary] at hrounded
    obtain ⟨hcount, hlow, hhigh⟩ := hrounded.digits_bounds
    obtain ⟨l, hl, hnumber, -⟩ := Decimal.spells_text (by rwa [hcount])
      (lt_of_lt_of_le (by decide) hlow)
    rw [Binary.text, if_neg hpos.ne'] at htext
    rw [Binary.signed] at hvalue
    cases hsign : b.negative with
    | false =>
      rw [hsign, if_neg Bool.false_ne_true] at hvalue htext
      rw [← hvalue] at hrounded
      refine ⟨_, .finite h (.positive hrounded), .plain ?_⟩
      rw [htext, ← hnumber]
      exact .literal hl.symm
    | true =>
      rw [hsign, if_pos rfl] at hvalue htext
      rw [← neg_eq_iff_eq_neg.mpr hvalue] at hrounded
      refine ⟨_, .finite h (.negative hrounded), ?_⟩
      rw [Rat.cast_neg, EReal.coe_neg, ← hnumber]
      exact .minus htext (.literal hl.symm)

/-- The display of a double that is a number denotes what it is shown as. -/
theorem exists_shownAs {x : Float} (h : x.isNaN = false) :
    ∃ p, ShownAs x p ∧ Denotes (display x) p := by
  have hnumber : x.toModel.unpack.isNaN = false := h
  have hfinite : x.isFinite = x.toModel.unpack.isFinite := rfl
  cases hx : x.toModel.unpack with
  | notANumber => rw [hx] at hnumber; cases hnumber
  | zero sign => exact exists_shownAs_of_isFinite (by rw [hfinite, hx]; rfl)
  | finite sign m e hm => exact exists_shownAs_of_isFinite (by rw [hfinite, hx]; rfl)
  | infinity sign =>
    have hnone : Binary.ofFloat? x = none := by
      rw [← Option.isNone_iff_eq_none, ← Option.not_isSome, Binary.isSome_ofFloat?, hfinite, hx]
      rfl
    have htext : display x = if isNegative x then "-Infinity" else "Infinity" := by
      simp only [display, hnone, h, Bool.false_eq_true, if_false]
    have hsign := isNegative_of_unpack hx
    cases sign with
    | positive =>
      have hplus : ¬isNegative x = true := by
        intro hminus
        cases hsign.mp hminus
      rw [if_neg hplus] at htext
      exact ⟨⊤, .infinity hx, .plain (.infinity (by rw [htext]))⟩
    | negative =>
      rw [if_pos (hsign.mpr rfl)] at htext
      have hname : (display x).toList = '-' :: "Infinity".toList := by rw [htext]; rfl
      refine ⟨⊥, .minusInfinity hx, ?_⟩
      rw [← EReal.neg_top]
      exact .minus hname (.infinity rfl)

/-- The infinities lie on their sides of all finite numbers. -/
theorem isLE_infinity {f : UnpackedFloat} (hf : f.isFinite = true) :
    (UnpackedFloat.compare (.infinity .positive) f).any (·.isLE) = false
      ∧ (UnpackedFloat.compare f (.infinity .negative)).any (·.isLE) = false := by
  cases f with
  | notANumber => cases hf
  | infinity sign => cases hf
  | zero sign => exact ⟨rfl, rfl⟩
  | finite sign m e hm => cases sign <;> exact ⟨rfl, rfl⟩

/-- Doubles are shown as numbers in the order of the doubles. -/
theorem ShownAs.mono {a b : Float} {p q : EReal} (hp : ShownAs a p) (hq : ShownAs b q)
    (h : a ≤ b) : p ≤ q := by
  have hle := isLE_of_le h
  cases hp with
  | minusInfinity _ => exact bot_le
  | finite ha hr =>
    cases hq with
    | finite hb hs => exact_mod_cast hr.mono hs (exactValue_le_of_le h ha hb)
    | infinity _ => exact le_top
    | minusInfinity hb =>
      rw [hb, (isLE_infinity (f := a.toModel.unpack) ha).2] at hle
      cases hle
  | infinity ha =>
    cases hq with
    | infinity _ => exact le_top
    | finite hb _ =>
      rw [ha, (isLE_infinity (f := b.toModel.unpack) hb).1] at hle
      cases hle
    | minusInfinity hb =>
      rw [ha, hb] at hle
      cases hle

/-- What is compared is a number. -/
theorem isNaN_of_le {a b : Float} (h : a ≤ b) : a.isNaN = false ∧ b.isNaN = false := by
  have hle := isLE_of_le h
  show a.toModel.unpack.isNaN = false ∧ b.toModel.unpack.isNaN = false
  generalize a.toModel.unpack = f at hle ⊢
  generalize b.toModel.unpack = g at hle ⊢
  cases f with
  | notANumber => cases hle
  | _ =>
    cases g with
    | notANumber => cases hle
    | _ => exact ⟨rfl, rfl⟩

/-- **Numbers are shown in their order.** Each of two doubles is shown as a text that denotes one
number, and the number of the lesser double is not greater, whichever notations the texts use. -/
theorem display_mono {a b : Float} (h : a ≤ b) :
    (∃! p, Denotes (display a) p) ∧ (∃! q, Denotes (display b) q)
      ∧ ∀ p q, Denotes (display a) p → Denotes (display b) q → p ≤ q := by
  obtain ⟨ha, hb⟩ := isNaN_of_le h
  obtain ⟨p, hp, hap⟩ := exists_shownAs ha
  obtain ⟨q, hq, hbq⟩ := exists_shownAs hb
  refine ⟨⟨p, hap, fun _ h => h.unique hap⟩, ⟨q, hbq, fun _ h => h.unique hbq⟩, ?_⟩
  intro p' q' hap' hbq'
  rw [hap'.unique hap, hbq'.unique hbq]
  exact hp.mono hq h

/-- A carry takes the greater of the two into the notation with a power of ten. -/
theorem display_mono_carry :
    (999999999999994900000 : Float) ≤ 999999999999999900000
      ∧ (∃! p, Denotes (display 999999999999994900000) p)
      ∧ (∃! q, Denotes (display 999999999999999900000) q)
      ∧ ∀ p q, Denotes (display 999999999999994900000) p →
        Denotes (display 999999999999999900000) q → p ≤ q :=
  have hle : (999999999999994900000 : Float) ≤ 999999999999999900000 := by decide +kernel
  ⟨hle, display_mono hle⟩

end Number

end SumSheet
