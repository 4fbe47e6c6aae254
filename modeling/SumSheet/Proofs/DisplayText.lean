/-
SumSheet.Proofs.DisplayText — the text a value is shown as is a literal.

What `display` writes is put together from the digits of a decimal, a
point, zeros and a power of ten. Whichever way it does so, the text is a
literal that an expression may hold, and the number that the literal
spells is that of the decimal. So reading the text gives the double next
to the decimal, and the display of that double is the text again.

  §1 Digits   — the digits of a number spell it, also without their
                trailing zeros.
  §2 Literals — the number of a literal, and the double it is read as.
  §3 Shown    — `fixed`, `scaled` and `Decimal.text` write literals.
  §4 Reread   — the text of a finite value, read as an expression.
-/
import Mathlib
import SumSheet.Proofs.SignificantDigits
import SumSheet.Proofs.ExpressionValue

namespace SumSheet

open Text Number

namespace Number

/-! ## §1 Digits -/

theorem toNat_digitChar (n : Nat) : (digitChar n).toNat = '0'.toNat + n % 10 := by
  have hvalid : ('0'.toNat + n % 10).isValidChar := by
    refine .inl ?_
    have hrest := Nat.mod_lt n (y := 10) (by decide)
    have hzero : '0'.toNat = 48 := rfl
    omega
  rw [digitChar, Char.toNat_ofNat, if_pos hvalid]

theorem isAsciiDigit_digitChar (n : Nat) : isAsciiDigit (digitChar n) = true := by
  have hpoint := toNat_digitChar n
  have hrest := Nat.mod_lt n (y := 10) (by decide)
  have hzero : '0'.toNat = 48 := rfl
  have hnine : '9'.toNat = 57 := rfl
  simp only [isAsciiDigit, Bool.and_eq_true, decide_eq_true_eq, Char.le_def,
    UInt32.le_iff_toNat_le]
  exact ⟨by show '0'.toNat ≤ (digitChar n).toNat; omega,
    by show (digitChar n).toNat ≤ '9'.toNat; omega⟩

theorem ofDigits_singleton (c : Char) : ofDigits [c] = digitValue c := by
  simp [ofDigits]

theorem isAsciiDigit_of_mem_lastDigits {count n : Nat} {c : Char} (h : c ∈ lastDigits count n) :
    isAsciiDigit c = true := by
  induction count generalizing n with
  | zero => simp [lastDigits] at h
  | succ count ih =>
    rw [lastDigits, List.mem_append, List.mem_singleton] at h
    rcases h with h | rfl
    · exact ih h
    · exact isAsciiDigit_digitChar n

theorem length_lastDigits (count n : Nat) : (lastDigits count n).length = count := by
  induction count generalizing n with
  | zero => rfl
  | succ count ih => rw [lastDigits, List.length_append, ih, List.length_singleton]

theorem ofDigits_lastDigits (count n : Nat) : ofDigits (lastDigits count n) = n % 10 ^ count := by
  induction count generalizing n with
  | zero => rw [lastDigits, pow_zero, Nat.mod_one]; rfl
  | succ count ih =>
    rw [lastDigits, ofDigits_append, ih, ofDigits_singleton, digitValue, toNat_digitChar,
      Nat.add_sub_cancel_left, List.length_singleton, pow_one, pow_succ', Nat.mod_mul]
    ring

theorem ofDigits_wholeText (n : Nat) : ofDigits (wholeText n) = n := by
  unfold wholeText
  split
  · rename_i hzero
    rw [hzero]
    rfl
  · rw [ofDigits_lastDigits, Nat.mod_eq_of_lt (lt_pow_digitCount n)]

theorem isAsciiDigit_of_mem_zeros {n : Nat} {c : Char} (h : c ∈ List.replicate n '0') :
    isAsciiDigit c = true := by
  rw [List.eq_of_mem_replicate h]
  rfl

theorem isAsciiDigit_of_mem_wholeText {n : Nat} {c : Char} (h : c ∈ wholeText n) :
    isAsciiDigit c = true := by
  unfold wholeText at h
  split at h
  · rw [List.mem_singleton.mp h]
    rfl
  · exact isAsciiDigit_of_mem_lastDigits h

theorem wholeText_ne_nil (n : Nat) : wholeText n ≠ [] := by
  intro hnil
  unfold wholeText at hnil
  split at hnil
  · cases hnil
  · rename_i hn
    have hlength := congrArg List.length hnil
    rw [length_lastDigits, digitCount_pos (Nat.pos_of_ne_zero hn)] at hlength
    cases hlength

/-- What is dropped behind the digits are zeros. -/
theorem dropTrailingZeros_append (digits : List Char) :
    ∃ k, dropTrailingZeros digits ++ List.replicate k '0' = digits := by
  refine ⟨(digits.reverse.takeWhile (· == '0')).length, ?_⟩
  have hzeros : digits.reverse.takeWhile (· == '0')
      = List.replicate (digits.reverse.takeWhile (· == '0')).length '0' :=
    List.eq_replicate_iff.mpr ⟨rfl, fun c hc => by simpa using List.mem_takeWhile_imp hc⟩
  rw [dropTrailingZeros, ← List.reverse_replicate, ← hzeros, ← List.reverse_append,
    List.takeWhile_append_dropWhile, List.reverse_reverse]

/-- The digits of a decimal that are shown. -/
def Decimal.shown (d : Decimal) : List Char :=
  dropTrailingZeros (lastDigits d.count d.digits)

/-- The digits shown spell the value, the first of them at the decimal's exponent. -/
theorem Decimal.value_shown {d : Decimal} (h : d.digits < 10 ^ d.count) :
    d.value = ofDigits d.shown * (10 : ℚ) ^ (d.exponent - d.shown.length + 1) := by
  obtain ⟨k, hdigits⟩ := dropTrailingZeros_append (lastDigits d.count d.digits)
  have hvalue : ofDigits d.shown * 10 ^ k = d.digits := by
    rw [← ofDigits_append_zeros, shown, hdigits, ofDigits_lastDigits, Nat.mod_eq_of_lt h]
  have hlength : d.shown.length + k = d.count := by
    simpa [shown, length_lastDigits] using congrArg List.length hdigits
  rw [Decimal.value, ← hvalue, ← hlength, Nat.cast_mul, Nat.cast_pow, Nat.cast_ofNat, mul_assoc,
    ← zpow_natCast, ← zpow_add₀ (by norm_num)]
  congr 2
  push_cast
  ring

theorem Decimal.shown_ne_nil {d : Decimal} (h : d.digits < 10 ^ d.count) (hpos : 0 < d.digits) :
    d.shown ≠ [] := by
  intro hnil
  obtain ⟨k, hdigits⟩ := dropTrailingZeros_append (lastDigits d.count d.digits)
  have hzero : d.digits = 0 := by
    rw [← Nat.mod_eq_of_lt h, ← ofDigits_lastDigits, ← hdigits, ofDigits_append_zeros]
    show ofDigits d.shown * _ = 0
    rw [hnil]
    exact Nat.zero_mul _
  omega

theorem Decimal.isAsciiDigit_of_mem_shown {d : Decimal} {c : Char} (h : c ∈ d.shown) :
    isAsciiDigit c = true :=
  isAsciiDigit_of_mem_lastDigits
    (List.mem_reverse.mp ((List.dropWhile_subset _) (List.mem_reverse.mp h)))

/-! ## §2 Literals -/

end Number

/-- The number that a literal spells. -/
def Literal.number (l : Literal) : ℚ :=
  ofDigits (l.whole ++ l.places) * (10 : ℚ) ^ (l.exponentValue - l.places.length)

/-- A literal is read as the decimal of the same number. -/
theorem Literal.value_eq {l : Literal} {d : Decimal} (h : l.number = d.value) :
    l.value = d.toFloat :=
  ofDecimal_congr h

/-- A character of the numbers shown. -/
def isShownChar (c : Char) : Bool :=
  isAsciiDigit c || c == '.' || c == 'e' || c == '+' || c == '-'

theorem isShownChar_of_isAsciiDigit {c : Char} (h : isAsciiDigit c = true) :
    isShownChar c = true := by
  simp [isShownChar, h]

theorem isShownChar_of_mem_text {l : Literal} (hletter : ∀ x ∈ l.exponent, x.letter = 'e')
    {c : Char} (h : c ∈ l.text) : isShownChar c = true := by
  rw [Literal.text, List.mem_append, List.mem_append] at h
  rcases h with h | h | h
  · exact isShownChar_of_isAsciiDigit (l.isDigit_whole c h)
  · have hfraction := l.isDigit_fraction
    cases hf : l.fraction with
    | none => rw [hf] at h; cases h
    | some places =>
      rw [hf] at h hfraction
      rcases List.mem_cons.mp h with rfl | h
      · rfl
      · exact isShownChar_of_isAsciiDigit (hfraction c h)
  · unfold Literal.exponentText at h
    split at h
    · rename_i x hx
      rw [LiteralExponent.text, List.mem_cons, List.mem_append, Option.mem_toList] at h
      rcases h with rfl | h | h
      · rw [hletter x hx]
        rfl
      · rcases x.sign_eq c h with rfl | rfl <;> rfl
      · exact isShownChar_of_isAsciiDigit (x.isDigit_digits c h)
    · cases h

/-- The text is a literal that spells this number, and holds only what numbers are shown with. -/
def Spells (text : List Char) (x : ℚ) : Prop :=
  ∃ l : Literal, l.text = text ∧ l.number = x ∧ ∀ c ∈ text, isShownChar c = true

theorem Spells.of_literal {text : List Char} {x : ℚ} (l : Literal)
    (hletter : ∀ x ∈ l.exponent, x.letter = 'e') (htext : l.text = text) (hnumber : l.number = x) :
    Spells text x :=
  ⟨l, htext, hnumber, htext ▸ fun _ hc => isShownChar_of_mem_text hletter hc⟩

/-- Digits alone. -/
theorem spells_whole {whole : List Char} (hne : whole ≠ [])
    (hwhole : ∀ c ∈ whole, isAsciiDigit c = true) : Spells whole (ofDigits whole) := by
  refine .of_literal
    { whole := whole
      fraction := none
      exponent := none
      isDigit_whole := hwhole
      isDigit_fraction := ?_
      some_digit := .inl hne } ?_ ?_ ?_
  · exact fun _ hc => by cases hc
  · exact fun _ hx => by cases hx
  · simp [Literal.text, Literal.exponentText]
  · simp [Literal.number, Literal.places, Literal.exponentValue]

/-- Digits on both sides of a point. -/
theorem spells_pointed {whole places : List Char} (hne : whole ≠ [])
    (hwhole : ∀ c ∈ whole, isAsciiDigit c = true) (hplaces : ∀ c ∈ places, isAsciiDigit c = true) :
    Spells (whole ++ '.' :: places)
      (ofDigits (whole ++ places) * (10 : ℚ) ^ (-(places.length : Int))) := by
  refine .of_literal
    { whole := whole
      fraction := some places
      exponent := none
      isDigit_whole := hwhole
      isDigit_fraction := hplaces
      some_digit := .inl hne } ?_ ?_ ?_
  · exact fun _ hx => by cases hx
  · simp [Literal.text, Literal.exponentText]
  · simp [Literal.number, Literal.places, Literal.exponentValue]

/-! ## §3 Shown -/

/-- An exponent as it is shown, always with a sign. -/
def shownExponent (e : Int) : LiteralExponent where
  letter := 'e'
  sign := some (if e < 0 then '-' else '+')
  digits := wholeText e.natAbs
  letter_eq := .inl rfl
  sign_eq s hs := by
    rw [Option.mem_some_iff.mp hs.symm]
    split
    · exact .inr rfl
    · exact .inl rfl
  digits_ne_nil := wholeText_ne_nil _
  isDigit_digits _ hc := isAsciiDigit_of_mem_wholeText hc

theorem value_shownExponent (e : Int) : (shownExponent e).value = e := by
  rw [LiteralExponent.value]
  show (if some (if e < 0 then '-' else '+') = some '-' then
    -(ofDigits (wholeText e.natAbs) : Int) else ofDigits (wholeText e.natAbs)) = e
  rw [ofDigits_wholeText]
  rcases lt_or_ge e 0 with hneg | hnonneg
  · rw [if_pos hneg, if_pos rfl]
    omega
  · rw [if_neg hnonneg.not_gt, if_neg (by decide)]
    omega

namespace Number

section

variable {digits : List Char} (hdigits : ∀ c ∈ digits, isAsciiDigit c = true)

include hdigits

/-- Zeros stand in front of the digits, or behind them, or the point stands between them. -/
theorem spells_fixed (hne : digits ≠ []) (e : Int) :
    Spells (fixed digits e) (ofDigits digits * (10 : ℚ) ^ (e - digits.length + 1)) := by
  unfold fixed
  split
  · rename_i hneg
    have hplaces : ∀ c ∈ List.replicate (-e - 1).toNat '0' ++ digits, isAsciiDigit c = true :=
      List.forall_mem_append.mpr ⟨fun _ => isAsciiDigit_of_mem_zeros, hdigits⟩
    have hpower : -((List.replicate (-e - 1).toNat '0' ++ digits).length : Int)
        = e - digits.length + 1 := by
      rw [List.length_append, List.length_replicate]
      omega
    have hvalue : ofDigits (['0'] ++ (List.replicate (-e - 1).toNat '0' ++ digits))
        = ofDigits digits := by
      rw [List.singleton_append, ← List.cons_append, ← List.replicate_succ, ofDigits_zeros_append]
    rw [← hvalue, ← hpower]
    exact spells_pointed (List.cons_ne_nil _ _) (fun _ hc => isAsciiDigit_of_mem_zeros (n := 1) hc)
      hplaces
  · rename_i hnonneg
    simp only []
    split
    · rename_i hlength
      have hwhole : ∀ c ∈ digits ++ List.replicate (e.toNat + 1 - digits.length) '0',
          isAsciiDigit c = true :=
        List.forall_mem_append.mpr ⟨hdigits, fun _ => isAsciiDigit_of_mem_zeros⟩
      have hpower : e - digits.length + 1 = ((e.toNat + 1 - digits.length : Nat) : Int) := by
        omega
      have hspells := spells_whole (List.append_ne_nil_of_left_ne_nil hne _) hwhole
      rw [ofDigits_append_zeros, Nat.cast_mul, Nat.cast_pow] at hspells
      rw [hpower, zpow_natCast]
      exact hspells
    · rename_i hlength
      have hpower : -((digits.drop (e.toNat + 1)).length : Int) = e - digits.length + 1 := by
        rw [List.length_drop]
        omega
      have hwhole : digits.take (e.toNat + 1) ≠ [] := by simp [List.take_eq_nil_iff, hne]
      have hplaces : ∀ c ∈ digits.drop (e.toNat + 1), isAsciiDigit c = true :=
        fun c hc => hdigits c (List.mem_of_mem_drop hc)
      have hspells := spells_pointed hwhole (fun c hc => hdigits c (List.mem_of_mem_take hc))
        hplaces
      rwa [List.take_append_drop, hpower] at hspells

/-- The first digit stands alone in front of the power, or the point stands behind it. -/
theorem spells_scaled (hne : digits ≠ []) (e : Int) :
    Spells (scaled digits e) (ofDigits digits * (10 : ℚ) ^ (e - digits.length + 1)) := by
  obtain ⟨lead, rest, rfl⟩ := List.exists_cons_of_ne_nil hne
  have hpower : e - (lead :: rest).length + 1 = e - rest.length := by
    rw [List.length_cons]
    push_cast
    ring
  cases rest with
  | nil =>
    refine .of_literal
      { whole := [lead]
        fraction := none
        exponent := some (shownExponent e)
        isDigit_whole := hdigits
        isDigit_fraction := ?_
        some_digit := .inl hne } ?_ ?_ ?_
    · exact fun _ hc => by cases hc
    · exact fun _ hx => by cases hx; rfl
    · rfl
    · rw [hpower, Literal.number]
      simp only [Literal.places, Literal.exponentValue, Option.getD_none, List.append_nil,
        value_shownExponent]
  | cons next rest =>
    refine .of_literal
      { whole := [lead]
        fraction := some (next :: rest)
        exponent := some (shownExponent e)
        isDigit_whole := fun c hc => hdigits c (by simp [List.mem_singleton.mp hc])
        isDigit_fraction := fun c hc => hdigits c (List.mem_cons_of_mem _ hc)
        some_digit := .inl (List.cons_ne_nil _ _) } ?_ ?_ ?_
    · exact fun _ hx => by cases hx; rfl
    · rfl
    · rw [hpower, Literal.number]
      simp only [Literal.places, Literal.exponentValue, Option.getD_some, List.singleton_append,
        value_shownExponent]

end

/-- The text of a decimal spells it. -/
theorem Decimal.spells_text {d : Decimal} (h : d.digits < 10 ^ d.count) (hpos : 0 < d.digits) :
    Spells d.text d.value := by
  have hdigits : ∀ c ∈ d.shown, isAsciiDigit c = true := fun _ => isAsciiDigit_of_mem_shown
  rw [value_shown h]
  unfold Decimal.text
  split
  · exact spells_fixed hdigits (shown_ne_nil h hpos) d.exponent
  · exact spells_scaled hdigits (shown_ne_nil h hpos) d.exponent

/-! ## §4 Reread -/

theorem display_of_ofFloat? {x : Float} {b : Binary} (h : Binary.ofFloat? x = some b) :
    (display x).toList = b.text := by
  rw [display, h, String.toList_ofList]

theorem Binary.text_opposite {b : Binary} (hpos : 0 < b.mantissa) (hsign : b.negative = false) :
    b.opposite.text = '-' :: b.text := by
  have hpos' : b.opposite.mantissa ≠ 0 := hpos.ne'
  have hsign' : b.opposite.negative = true := by rw [opposite, hsign]; rfl
  simp only [text, if_neg hpos.ne', if_neg hpos', hsign, hsign', if_true, Bool.false_eq_true,
    if_false]
  rfl

end Number

/-- The text consists of characters of numbers, and no name begins in front. -/
structure IsNumberText (text : List Char) : Prop where
  chars : ∀ c ∈ text, isShownChar c = true
  start : ∃ c rest, text = c :: rest ∧ isNameStart c = false

/-- Whatever the scope and the functions known, the text has a finite value, which is shown as this
text again. -/
structure IsRedisplayed (text : List Char) : Prop extends IsNumberText text where
  evaluate (p : Script.Program) (scope : Scope) : ∃ y b, p.evaluate text scope = .ok y
    ∧ Binary.ofFloat? y = some b ∧ b.text = text

theorem IsNumberText.of_literal {l : Literal} (h : ∀ c ∈ l.text, isShownChar c = true) :
    IsNumberText l.text := by
  refine ⟨h, ?_⟩
  obtain ⟨c, rest, htext, hc⟩ := Formula.head_text l
  refine ⟨c, rest, htext, ?_⟩
  rcases hc with hdigit | rfl
  · exact Formula.isNameStart_of_isAsciiDigit hdigit
  · decide

theorem IsNumberText.minus {text : List Char} (h : IsNumberText text) :
    IsNumberText ('-' :: text) := by
  refine ⟨fun c hc => ?_, '-', text, rfl, by decide⟩
  rcases List.mem_cons.mp hc with rfl | hc
  · rfl
  · exact h.chars c hc

/-- A literal has its value, also with a minus in front of it. -/
theorem evaluate_isNumber {t : Arithmetic} (hcalls : t.calls = []) (hlevels : t.levels ≤ 2)
    {scope : Scope} (hoperations : t.operations scope = 1) {y : Float}
    (hvalue : t.value scope = .ok y) {b : Binary} (hfinite : Binary.ofFloat? y = some b)
    (p : Script.Program) : p.evaluate t.text scope = .ok y := by
  have hnumber : y.isNaN = false := isNaN_of_isFinite (Binary.isFinite_of_ofFloat? hfinite)
  have hlevels : t.levels ≤ Script.expressionLevels := hlevels.trans (by decide)
  have hoperations : t.operations scope ≤ Script.Run.operationLimit := by
    rw [hoperations]
    decide
  rw [Script.evaluate_write (fun c hc => by rw [hcalls] at hc; cases hc), if_pos hlevels,
    if_pos hoperations, Arithmetic.outcome, hvalue]
  simp only [hnumber, Bool.false_eq_true, if_false]

theorem IsRedisplayed.of_literal {l : Literal} (h : ∀ c ∈ l.text, isShownChar c = true) {b : Binary}
    (hvalue : Binary.ofFloat? l.value = some b) (htext : b.text = l.text) :
    IsRedisplayed l.text where
  toIsNumberText := .of_literal h
  evaluate p _ :=
    ⟨l.value, b, evaluate_isNumber (t := .literal l) rfl (Nat.le_succ 1) rfl rfl hvalue p,
      hvalue, htext⟩

theorem IsRedisplayed.of_minus {l : Literal} (h : ∀ c ∈ l.text, isShownChar c = true) {b : Binary}
    (hvalue : Binary.ofFloat? l.value = some b) (htext : b.text = l.text) (hpos : 0 < b.mantissa)
    (hsign : b.negative = false) : IsRedisplayed ('-' :: l.text) where
  toIsNumberText := (IsNumberText.of_literal h).minus
  evaluate p _ := by
    have hopposite := Binary.ofFloat?_neg hvalue
    refine ⟨-l.value, b.opposite, evaluate_isNumber (t := .negate (.literal l)) rfl le_rfl rfl rfl
      hopposite p, hopposite, ?_⟩
    rw [Binary.text_opposite hpos hsign, htext]

theorem spells_zero : Spells ['0'] 0 := by
  have hspells := spells_whole (List.cons_ne_nil '0' [])
    (fun _ hc => isAsciiDigit_of_mem_zeros (n := 1) hc)
  rwa [show ((ofDigits ['0'] : Nat) : ℚ) = 0 from Nat.cast_zero] at hspells

/-- The text of a finite value has a value that is shown as the same text. -/
theorem isRedisplayed_text {b : Binary} (hb : b.IsDouble) : IsRedisplayed b.text := by
  rcases Nat.eq_zero_or_pos b.mantissa with hzero | hpos
  · have htext : b.text = ['0'] := by rw [Binary.text, if_pos hzero]
    obtain ⟨l, hl, hnumber, hchars⟩ := spells_zero
    have hvalue : l.value = 0.0 := by
      rw [Literal.value, ofDecimal_congr (n := 0) (f := 0), ofDecimal_zero]
      rw [Nat.cast_zero, zero_mul]
      exact hnumber
    have hreread : Binary.ofFloat? l.value = some ⟨false, 0, -1074⟩ := by
      rw [hvalue]
      decide +kernel
    rw [htext, ← hl]
    exact .of_literal (hl ▸ hchars) hreread hl.symm
  · have hrounded := isRounded_significant (Quotient.isPositive_ofBinary hpos)
    obtain ⟨hcount, hlow, hhigh⟩ := hrounded.digits_bounds
    obtain ⟨c, hreread, hsign, hmantissa, hsame⟩ := significant_reread hb hpos
    obtain ⟨l, hl, hnumber, hchars⟩ := Decimal.spells_text (by rw [hcount]; exact hhigh)
      (lt_of_lt_of_le (by decide) hlow)
    have hvalue : Binary.ofFloat? l.value = some c := by
      rw [Literal.value_eq hnumber]
      exact hreread
    have htext : c.text = l.text := by
      simp only [Binary.text, if_neg hmantissa.ne', hsign, Bool.false_eq_true, if_false, hsame, hl]
    rw [Binary.text, if_neg hpos.ne', ← hl]
    cases b.negative with
    | false => exact .of_literal (hl ▸ hchars) hvalue htext
    | true => exact .of_minus (hl ▸ hchars) hvalue htext hmantissa hsign

end SumSheet
