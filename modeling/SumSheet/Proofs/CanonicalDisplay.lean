/-
SumSheet.Proofs.CanonicalDisplay — the display of a number is the canonical
text of its rounding.

A double is a rational number, exactly. What it is shown as denotes that
number rounded to fourteen significant digits, so the display is wrong by
half a unit of the last digit at most; and of all texts with that value it
is the one without a superfluous zero, written out in full or with a power
of ten by the exponent that the decimal has after the rounding. A carry
into the next decade moves that exponent, and the notation with it.

  §1 Exact     — the rational number that a double is.
  §2 Shapes    — whole numbers, fractions, texts in full and with a power.
  §3 Digits    — no digit shown is superfluous, in either notation.
  §4 Error     — how far the decimal is from the value, and its exponent.
  §5 Steps     — the text taken apart from scientific notation step by
                 step, where every step that can fail is checked.
  §6 Shown     — the display of a finite number that is not zero.
-/
import Mathlib
import SumSheet.Proofs.DisplayText

namespace SumSheet

open Text Number

namespace Number

open Float.Model.UnpackedFloat

/-! ## §1 Exact -/

/-- The rational number that a finite double is, by the unpacked form of the double; zero for what
is not finite. -/
def exactValue (x : Float) : ℚ :=
  match x.toModel.unpack with
  | .finite .positive mantissa exponent _ => mantissa * 2 ^ exponent
  | .finite .negative mantissa exponent _ => -(mantissa * 2 ^ exponent)
  | _ => 0

/-- The value with its sign. -/
def Binary.signed (b : Binary) : ℚ :=
  if b.negative then -b.value else b.value

/-- Of the finite doubles only the two zeros are the number zero. -/
theorem exactValue_ne_zero {x : Float} (hfinite : x.isFinite = true) (hzero : (x == 0.0) = false) :
    exactValue x ≠ 0 := by
  have hfinite : x.toModel.unpack.isFinite = true := hfinite
  have hzero : x.toModel.unpack.beq (.zero .positive) = false := hzero
  unfold exactValue
  cases hx : x.toModel.unpack with
  | notANumber => rw [hx] at hfinite; cases hfinite
  | infinity sign => rw [hx] at hfinite; cases hfinite
  | zero sign => rw [hx] at hzero; cases hzero
  | finite sign mantissa exponent hpos =>
    have hvalue : (0 : ℚ) < mantissa * 2 ^ exponent := by positivity
    cases sign with
    | positive => exact hvalue.ne'
    | negative => exact (neg_lt_zero.mpr hvalue).ne

theorem exactValue_unpacked {x : Float} {sign : Sign} {mantissa : Nat} {exponent : Int}
    {hpos : 0 < mantissa} (h : x.toModel.unpack = .finite sign mantissa exponent hpos) :
    exactValue x = Binary.signed ⟨sign.toBitVec.toNat == 1, mantissa, exponent⟩ := by
  rw [exactValue, h]
  cases sign <;> rfl

/-- Reading the bits gives the same number. -/
theorem Binary.exactValue_eq {x : Float} {b : Binary} (h : Binary.ofFloat? x = some b) :
    exactValue x = b.signed := by
  have hsign := toNat_unpackSign x.toBits.toBitVec
  have hfield := toNat_unpackExponent x.toBits.toBitVec
  have hfraction := toNat_unpackMantissa x.toBits.toBitVec
  rw [UInt64.toNat_toBitVec] at hsign hfield hfraction
  have hmodel := unpack_toModel x
  rw [unpacked] at hmodel
  rw [Binary.ofFloat?_eq, Binary.ofBits?, ← hsign, ← hfield, ← hfraction] at h
  split at h
  · cases h
  · rename_i hall
    have hall' : @unpackExponent .binary64 x.toBits.toBitVec ≠ -1#11 := by
      intro heq
      exact hall (congrArg BitVec.toNat heq)
    rw [if_neg hall'] at hmodel
    split at h
    · -- the doubles next to zero, and zero
      rename_i hleast
      have hleast' : @unpackExponent .binary64 x.toBits.toBitVec = 0#11 :=
        BitVec.eq_of_toNat_eq hleast
      cases h
      rw [if_pos hleast'] at hmodel
      split at hmodel
      · rename_i hnone
        rw [exactValue, hmodel, hnone, Binary.signed, Binary.value]
        simp
      · rw [exactValue_unpacked hmodel, toBitVec_ofBitVec]
    · rename_i hleast
      have hleast' : @unpackExponent .binary64 x.toBits.toBitVec ≠ 0#11 := by
        intro heq
        exact hleast (congrArg BitVec.toNat heq)
      cases h
      rw [if_neg hleast'] at hmodel
      rw [exactValue_unpacked hmodel, toBitVec_ofBitVec, Nat.add_comm]

theorem Binary.value_pos {b : Binary} (h : 0 < b.mantissa) : 0 < b.value := by
  rw [value]
  positivity

theorem Binary.abs_signed (b : Binary) : |b.signed| = b.value := by
  have hvalue : 0 ≤ b.value := by
    rw [value]
    positivity
  unfold signed
  split
  · rw [abs_neg, abs_of_nonneg hvalue]
  · rw [abs_of_nonneg hvalue]

theorem Binary.signed_neg_iff {b : Binary} (h : 0 < b.mantissa) :
    b.signed < 0 ↔ b.negative = true := by
  have hvalue := value_pos h
  unfold signed
  split
  · rename_i hsign
    exact iff_of_true (neg_lt_zero.mpr hvalue) hsign
  · rename_i hsign
    exact iff_of_false hvalue.not_gt hsign

/-! ## §2 Shapes -/

/-- Decimal digits in front of a point, or alone: a zero stands first only if it stands alone. -/
structure IsWhole (text : List Char) : Prop where
  ne_nil : text ≠ []
  digits : ∀ c ∈ text, isAsciiDigit c = true
  lead : text.head? = some '0' → text = ['0']

/-- Decimal digits behind a point, the last of which is not a zero. -/
structure IsFraction (text : List Char) : Prop where
  ne_nil : text ≠ []
  digits : ∀ c ∈ text, isAsciiDigit c = true
  last : text.getLast? ≠ some '0'

/-- Written out in full, without a superfluous zero and without a point that nothing follows. -/
inductive IsFixed : List Char → Prop
  | whole {whole : List Char} (hwhole : IsWhole whole) : IsFixed whole
  | pointed {whole places : List Char} (hwhole : IsWhole whole) (hplaces : IsFraction places) :
    IsFixed (whole ++ '.' :: places)

/-- The power of ten with this exponent: its sign is always written, its magnitude without leading
zeros. -/
structure IsPower (exponent : Int) (power : List Char) : Prop where
  exists_whole : ∃ whole, IsWhole whole ∧ ofDigits whole = exponent.natAbs
    ∧ power = 'e' :: (if exponent < 0 then '-' else '+') :: whole

/-- Written with a power of ten behind one digit, or one digit and a fraction. -/
inductive IsScaled (exponent : Int) : List Char → Prop
  | lead {lead : Char} {power : List Char} (hdigit : isAsciiDigit lead = true) (hlead : lead ≠ '0')
    (hpower : IsPower exponent power) : IsScaled exponent (lead :: power)
  | pointed {lead : Char} {places power : List Char} (hdigit : isAsciiDigit lead = true)
    (hlead : lead ≠ '0') (hplaces : IsFraction places) (hpower : IsPower exponent power) :
    IsScaled exponent (lead :: '.' :: (places ++ power))

/-! ## §3 Digits -/

/-- Digits of which neither the first nor the last is a zero. -/
structure IsSignificant (text : List Char) : Prop where
  ne_nil : text ≠ []
  digits : ∀ c ∈ text, isAsciiDigit c = true
  first : text.head? ≠ some '0'
  last : text.getLast? ≠ some '0'

theorem lastDigits_succ (count n : Nat) :
    lastDigits (count + 1) n = digitChar (n / 10 ^ count) :: lastDigits count n := by
  induction count generalizing n with
  | zero => simp [lastDigits]
  | succ count ih =>
    have hdiv : n / 10 / 10 ^ count = n / 10 ^ (count + 1) := by
      rw [Nat.div_div_eq_div_mul, Nat.pow_succ']
    rw [lastDigits, ih (n / 10), hdiv, List.cons_append]
    rfl

/-- The first digit of a number is not zero. -/
theorem digitChar_lead_ne {count n : Nat} (hlow : 10 ^ count ≤ n) (hhigh : n < 10 ^ (count + 1)) :
    digitChar (n / 10 ^ count) ≠ '0' := by
  intro hzero
  have hpos : 0 < n / 10 ^ count := Nat.div_pos hlow (Nat.pow_pos (by decide))
  have hlt : n / 10 ^ count < 10 := by
    rw [Nat.div_lt_iff_lt_mul (Nat.pow_pos (by decide)), ← Nat.pow_succ']
    exact hhigh
  have hpoint := toNat_digitChar (n / 10 ^ count)
  rw [hzero] at hpoint
  omega

theorem isWhole_wholeText (n : Nat) : IsWhole (wholeText n) where
  ne_nil := wholeText_ne_nil n
  digits _ hc := isAsciiDigit_of_mem_wholeText hc
  lead hlead := by
    rcases Nat.eq_zero_or_pos n with rfl | hpos
    · rfl
    · exfalso
      have hlow := pow_digitCount_le hpos
      have hhigh := lt_pow_digitCount n
      rw [wholeText, if_neg hpos.ne'] at hlead
      rw [digitCount_pos hpos] at hlead hlow hhigh
      rw [lastDigits_succ, List.head?_cons, Option.some_inj] at hlead
      refine digitChar_lead_ne ?_ hhigh hlead
      rw [Nat.pow_succ] at hlow
      omega

theorem getLast?_dropTrailingZeros (digits : List Char) :
    (dropTrailingZeros digits).getLast? ≠ some '0' := by
  intro hlast
  have hkept := List.head?_dropWhile_not (· == '0') digits.reverse
  rw [dropTrailingZeros, List.getLast?_reverse] at hlast
  rw [hlast] at hkept
  cases hkept

theorem Decimal.isSignificant_shown {d : Decimal} {count : Nat} (hcount : d.count = count + 1)
    (hlow : 10 ^ count ≤ d.digits) (hhigh : d.digits < 10 ^ (count + 1)) :
    IsSignificant d.shown := by
  have hne : d.shown ≠ [] :=
    shown_ne_nil (by rwa [hcount]) (lt_of_lt_of_le (Nat.pow_pos (by decide)) hlow)
  refine ⟨hne, fun _ => isAsciiDigit_of_mem_shown, ?_, getLast?_dropTrailingZeros _⟩
  obtain ⟨k, hdigits⟩ := dropTrailingZeros_append (lastDigits d.count d.digits)
  have hfirst : d.shown.head? = (lastDigits d.count d.digits).head? := by
    rw [← hdigits]
    exact (List.head?_append_of_ne_nil d.shown hne).symm
  rw [hfirst, hcount, lastDigits_succ, List.head?_cons]
  intro hzero
  exact digitChar_lead_ne hlow hhigh (Option.some_inj.mp hzero)

section

variable {digits : List Char}

/-- Zeros fill up the places between the digits and the point, and no others. -/
theorem IsSignificant.isFixed (h : IsSignificant digits) (e : Int) : IsFixed (fixed digits e) := by
  unfold fixed
  split
  · have hwhole : IsWhole ['0'] := isWhole_wholeText 0
    refine .pointed hwhole ⟨?_, ?_, ?_⟩
    · exact List.append_ne_nil_of_right_ne_nil _ h.ne_nil
    · exact List.forall_mem_append.mpr ⟨fun _ => isAsciiDigit_of_mem_zeros, h.digits⟩
    · rw [List.getLast?_append_of_ne_nil _ h.ne_nil]
      exact h.last
  · simp only []
    split
    · refine .whole ⟨?_, ?_, ?_⟩
      · exact List.append_ne_nil_of_left_ne_nil h.ne_nil _
      · exact List.forall_mem_append.mpr ⟨h.digits, fun _ => isAsciiDigit_of_mem_zeros⟩
      · intro hzero
        rw [List.head?_append_of_ne_nil _ h.ne_nil] at hzero
        exact absurd hzero h.first
    · rename_i hlength
      refine .pointed ⟨?_, ?_, ?_⟩ ⟨?_, ?_, ?_⟩
      · simp [List.take_eq_nil_iff, h.ne_nil]
      · exact fun c hc => h.digits c (List.mem_of_mem_take hc)
      · intro hzero
        rw [List.head?_take, if_neg (Nat.succ_ne_zero _)] at hzero
        exact absurd hzero h.first
      · rw [Ne, List.drop_eq_nil_iff]
        exact hlength
      · exact fun c hc => h.digits c (List.mem_of_mem_drop hc)
      · rw [List.getLast?_drop, if_neg hlength]
        exact h.last

theorem isPower_shown (e : Int) :
    IsPower e ('e' :: (if e < 0 then '-' else '+') :: wholeText e.natAbs) :=
  ⟨_, isWhole_wholeText _, ofDigits_wholeText _, rfl⟩

theorem IsSignificant.isScaled (h : IsSignificant digits) (e : Int) :
    IsScaled e (scaled digits e) := by
  obtain ⟨lead, rest, rfl⟩ := List.exists_cons_of_ne_nil h.ne_nil
  have hdigit := h.digits lead (List.mem_cons_self ..)
  have hlead : lead ≠ '0' := by
    intro hzero
    exact h.first (congrArg some hzero)
  cases rest with
  | nil => exact .lead hdigit hlead (isPower_shown e)
  | cons next rest =>
    refine .pointed hdigit hlead ⟨?_, ?_, ?_⟩ (isPower_shown e)
    · exact List.cons_ne_nil _ _
    · exact fun c hc => h.digits c (List.mem_cons_of_mem _ hc)
    · rw [← List.getLast?_cons_cons (a := lead)]
      exact h.last

end

/-! ## §4 Error -/

section

variable {x : ℚ} {d : Decimal}

/-- The decimal is wrong by half a unit of the fourteenth digit of the value at most. -/
theorem IsRounded.abs_sub_le (h : IsRounded x d) {e : Int} (hlow : 10 ^ e ≤ x)
    (hhigh : x < 10 ^ (e + 1)) : |d.value - x| ≤ 10 ^ (e - 13) / 2 := by
  cases h with
  | @within n f hlow' hhigh' hnear hdigits =>
    obtain rfl := Quotient.exponent_unique (by norm_num) ⟨hlow, hhigh⟩ ⟨hlow', hhigh'⟩
    have hnear := hnear.near
    rw [scaled_sub, ← Decimal.value_eq, abs_sub_comm] at hnear
    have hunit : (10 : ℚ) ^ (e - 13) = (10 ^ (13 - e))⁻¹ := by
      rw [← zpow_neg, neg_sub]
    rw [hunit, inv_eq_one_div, div_div, mul_comm, ← div_div]
    exact (le_div_iff₀ (ten_zpow_pos _)).mpr hnear
  | @below f hlow' hhigh' =>
    -- a carry: the value itself lies in the decade below
    obtain rfl := Quotient.exponent_unique (by norm_num) ⟨hlow, hhigh⟩
      ⟨decade_le hlow', by rwa [sub_add_cancel]⟩
    have hunit : (10 : ℚ) ^ (f - 1 - 13) = 10 ^ f * (1 / 10 ^ 14) := by
      rw [show f - 1 - 13 = f - 14 by ring, zpow_sub₀ (by norm_num), div_eq_mul_one_div]
      norm_cast
    rw [Decimal.value_power, abs_of_pos (sub_pos.mpr hhigh'), hunit]
    linarith

/-- The exponent of a decimal is that of its value. -/
theorem IsRounded.value_bounds (h : IsRounded x d) :
    10 ^ d.exponent ≤ d.value ∧ d.value < 10 ^ (d.exponent + 1) := by
  obtain ⟨hcount, hlow, hhigh⟩ := h.digits_bounds
  have hvalue : d.value = d.digits * 10 ^ (d.exponent - 13) := by
    rw [Decimal.value, hcount, sub_add]
    rfl
  rw [hvalue]
  constructor
  · rw [← power_eq d.exponent]
    exact mul_le_mul_of_nonneg_right (by exact_mod_cast hlow) (ten_zpow_pos _).le
  · rw [show d.exponent - 13 = d.exponent + 1 - 14 by ring, ← ten_zpow_mul 14 (d.exponent + 1)]
    exact mul_lt_mul_of_pos_right (by exact_mod_cast hhigh) (ten_zpow_pos _)

end

/-! ## §5 Steps -/

/-- A decimal in scientific notation: the first digit, a point, the other digits and the exponent,
which has a sign only if it is negative. -/
def Decimal.scientific (d : Decimal) : List Char :=
  let digits := lastDigits d.count d.digits
  digits.take 1 ++ '.' :: (digits.drop 1 ++ 'e' ::
    (if d.exponent < 0 then '-' :: wholeText d.exponent.natAbs else wholeText d.exponent.natAbs))

/-- What stands before and behind the first such character, if there is one. -/
def splitOnce (c : Char) (text : List Char) : Option (List Char × List Char) :=
  if c ∈ text then some (text.takeWhile (· != c), (text.dropWhile (· != c)).tail) else none

/-- A whole number of 32 bits. -/
def checked (n : Int) : Option Int :=
  if -2 ^ 31 ≤ n ∧ n < 2 ^ 31 then some n else none

/-- The whole number of 32 bits that the text spells. -/
def parseChecked (text : List Char) : Option Int :=
  let digits := if text.head? = some '-' ∨ text.head? = some '+' then text.tail else text
  if digits ≠ [] ∧ ∀ c ∈ digits, isAsciiDigit c = true then
    checked (if text.head? = some '-' then -(ofDigits digits : Int) else ofDigits digits)
  else none

/-- A count, which must not be negative. -/
def countChecked (n : Int) : Option Nat :=
  if 0 ≤ n then some n.toNat else none

/-- Both parts of a text that is cut at a position, which must lie in it. -/
def splitChecked (position : Nat) (text : List Char) : Option (List Char × List Char) :=
  if position ≤ text.length then some (text.take position, text.drop position) else none

/-- `fixed`, with each difference and each slice checked. -/
def fixedChecked (digits : List Char) (exponent : Int) : Option (List Char) :=
  if exponent < 0 then do
    let places ← checked (-exponent)
    let zeros ← checked (places - 1)
    let zeros ← countChecked zeros
    some ('0' :: '.' :: (List.replicate zeros '0' ++ digits))
  else
    let whole := exponent.toNat + 1
    if digits.length ≤ whole then do
      let zeros ← countChecked ((whole : Int) - digits.length)
      some (digits ++ List.replicate zeros '0')
    else do
      let (front, rest) ← splitChecked whole digits
      some (front ++ '.' :: rest)

/-- `scaled`, with the cut behind the first digit and the magnitude of the exponent checked. -/
def scaledChecked (digits : List Char) (exponent : Int) : Option (List Char) := do
  let (lead, rest) ← splitChecked 1 digits
  let magnitude ← checked exponent.natAbs
  let power := 'e' :: (if exponent < 0 then '-' else '+') :: wholeText magnitude.toNat
  if rest = [] then some (lead ++ power) else some (lead ++ '.' :: (rest ++ power))

/-- Scientific notation laid out anew. There is no result if the exponent is not found or not read,
or if a step leaves its range. -/
def layOut (scientific : List Char) : Option (List Char) := do
  let (mantissa, power) ← splitOnce 'e' scientific
  let exponent ← parseChecked power
  let kept := dropTrailingZeros (mantissa.filter isAsciiDigit)
  let digits := if kept = [] then ['0'] else kept
  if leastFixed ≤ exponent ∧ exponent < leastScaled then fixedChecked digits exponent
  else scaledChecked digits exponent

theorem checked_eq {n : Int} (hlow : -2 ^ 31 ≤ n) (hhigh : n < 2 ^ 31) : checked n = some n :=
  if_pos ⟨hlow, hhigh⟩

theorem countChecked_eq {n : Int} (h : 0 ≤ n) : countChecked n = some n.toNat :=
  if_pos h

theorem splitChecked_eq {position : Nat} {text : List Char} (h : position ≤ text.length) :
    splitChecked position text = some (text.take position, text.drop position) :=
  if_pos h

theorem splitOnce_append {c : Char} {front : List Char} (h : c ∉ front) (rest : List Char) :
    splitOnce c (front ++ c :: rest) = some (front, rest) := by
  have hfront : ∀ a ∈ front, (a != c) = true := by
    intro a ha
    rw [bne_iff_ne]
    rintro rfl
    exact h ha
  rw [splitOnce, if_pos (List.mem_append_right _ (List.mem_cons_self ..)),
    List.takeWhile_append_of_pos hfront, List.dropWhile_append_of_pos hfront]
  simp

/-- An exponent that was written is read. -/
theorem parseChecked_exponent {e : Int} (hlow : -2 ^ 31 ≤ e) (hhigh : e < 2 ^ 31) :
    parseChecked (if e < 0 then '-' :: wholeText e.natAbs else wholeText e.natAbs) = some e := by
  have hdigits : wholeText e.natAbs ≠ [] ∧ ∀ c ∈ wholeText e.natAbs, isAsciiDigit c = true :=
    ⟨wholeText_ne_nil _, fun _ => isAsciiDigit_of_mem_wholeText⟩
  split
  · rename_i hneg
    simp only [parseChecked, List.head?_cons, true_or, if_true, List.tail_cons]
    rw [if_pos hdigits, ofDigits_wholeText, show -(e.natAbs : Int) = e by omega]
    exact checked_eq hlow hhigh
  · rename_i hnonneg
    have hsign (c : Char) (hc : isAsciiDigit c = false) : (wholeText e.natAbs).head? ≠ some c := by
      intro hhead
      rw [hdigits.2 c (List.mem_of_head? hhead)] at hc
      cases hc
    have hminus := hsign '-' rfl
    have hplus := hsign '+' rfl
    simp only [parseChecked, hminus, hplus, or_self, if_false]
    rw [if_pos hdigits, ofDigits_wholeText, show (e.natAbs : Int) = e by omega]
    exact checked_eq hlow hhigh

theorem fixedChecked_eq (digits : List Char) {e : Int} (hlow : -2 ^ 31 < e) :
    fixedChecked digits e = some (fixed digits e) := by
  unfold fixedChecked fixed
  split
  · rename_i hneg
    rw [checked_eq (by omega) (by omega), Option.bind_eq_bind, Option.bind_some,
      checked_eq (by omega) (by omega), Option.bind_eq_bind, Option.bind_some,
      countChecked_eq (by omega)]
    rfl
  · rename_i hnonneg
    simp only []
    split
    · rename_i hlength
      rw [countChecked_eq (by omega), Option.bind_eq_bind, Option.bind_some,
        show ((e.toNat + 1 : Nat) - digits.length : Int).toNat
          = e.toNat + 1 - digits.length by omega]
    · rename_i hlength
      rw [splitChecked_eq (not_le.mp hlength).le]
      rfl

theorem scaledChecked_eq {digits : List Char} (hne : digits ≠ []) {e : Int} (hlow : -2 ^ 31 < e)
    (hhigh : e < 2 ^ 31) : scaledChecked digits e = some (scaled digits e) := by
  obtain ⟨lead, rest, rfl⟩ := List.exists_cons_of_ne_nil hne
  rw [scaledChecked, splitChecked_eq (by simp), Option.bind_eq_bind, Option.bind_some,
    checked_eq (by omega) (by omega)]
  cases rest with
  | nil => rfl
  | cons next rest => rfl

/-- Laying out the scientific notation of the fourteen digits leaves its range at no step, and gives
the text of the decimal. -/
theorem layOut_scientific {d : Decimal} (hcount : d.count = 14) (hdigits : 0 < d.digits)
    (hbound : d.digits < 10 ^ 14) (hlow : -2 ^ 31 < d.exponent) (hhigh : d.exponent < 2 ^ 31) :
    layOut d.scientific = some d.text := by
  have hshown : d.shown ≠ [] := Decimal.shown_ne_nil (by rwa [hcount]) hdigits
  have hmem {c : Char} (hc : c ∈ lastDigits d.count d.digits) : isAsciiDigit c = true :=
    isAsciiDigit_of_mem_lastDigits hc
  generalize hall : lastDigits d.count d.digits = digits at hmem
  have hmark : 'e' ∉ digits.take 1 ++ '.' :: digits.drop 1 := by
    simp only [List.mem_append, List.mem_cons, not_or]
    refine ⟨fun hc => ?_, by decide, fun hc => ?_⟩
    · exact absurd (hmem (List.mem_of_mem_take hc)) (by decide)
    · exact absurd (hmem (List.mem_of_mem_drop hc)) (by decide)
  have hkept : (digits.take 1 ++ '.' :: digits.drop 1).filter isAsciiDigit = digits := by
    rw [List.filter_append, List.filter_cons_of_neg (by decide), ← List.filter_append,
      List.take_append_drop]
    exact List.filter_eq_self.mpr fun _ => hmem
  have hdrop : dropTrailingZeros digits = d.shown := by rw [← hall, Decimal.shown]
  have hsplit := splitOnce_append hmark
    (if d.exponent < 0 then '-' :: wholeText d.exponent.natAbs else wholeText d.exponent.natAbs)
  rw [List.append_assoc, List.cons_append] at hsplit
  rw [layOut, Decimal.scientific, hall, hsplit, Option.bind_eq_bind, Option.bind_some]
  simp only []
  rw [parseChecked_exponent hlow.le hhigh, Option.bind_eq_bind, Option.bind_some, hkept, hdrop,
    if_neg hshown, fixedChecked_eq _ hlow, scaledChecked_eq hshown hlow hhigh, Decimal.text]
  split <;> rfl

/-! ## §6 Shown -/

/-- The canonical text of a decimal: in full for exponents from `-7` up to, but not including, `21`,
else with a power of ten. -/
def IsCanonical (exponent : Int) (text : List Char) : Prop :=
  if -7 ≤ exponent ∧ exponent < 21 then IsFixed text else IsScaled exponent text

theorem IsRounded.isSignificant_shown {x : ℚ} {d : Decimal} (h : IsRounded x d) :
    IsSignificant d.shown := by
  obtain ⟨hcount, hlow, hhigh⟩ := h.digits_bounds
  exact Decimal.isSignificant_shown hcount hlow hhigh

theorem IsRounded.isCanonical_text {x : ℚ} {d : Decimal} (h : IsRounded x d) :
    IsCanonical d.exponent d.text := by
  have hshown := h.isSignificant_shown
  have hrange : (leastFixed ≤ d.exponent ∧ d.exponent < leastScaled)
      ↔ -7 ≤ d.exponent ∧ d.exponent < 21 := Iff.rfl
  unfold IsCanonical
  split
  · rename_i hfixed
    rw [Decimal.text, if_pos (hrange.mpr hfixed)]
    exact hshown.isFixed d.exponent
  · rename_i hscaled
    rw [Decimal.text, if_neg (fun h => hscaled (hrange.mp h))]
    exact hshown.isScaled d.exponent

/-- The number `q` is shown as the number `r` of this exponent, whose text is `body` behind the
sign. -/
structure IsShownAs (q r : ℚ) (exponent : Int) (body : List Char) : Prop where
  /-- The text denotes the number. -/
  spells : Spells body |r|
  /-- Both numbers have the same sign. -/
  sign : SignType.sign r = SignType.sign q
  /-- The number has fourteen significant digits at most. -/
  digits : ∃ (n : Nat) (power : Int), n < 10 ^ 14 ∧ |r| = n * 10 ^ power
  /-- It is wrong by half a unit of the fourteenth digit at most. -/
  near : ∀ e : Int, 10 ^ e ≤ |q| → |q| < 10 ^ (e + 1) → |r - q| ≤ 10 ^ (e - 13) / 2
  /-- The exponent is that of the number itself, after any carry. -/
  exponent_le : 10 ^ exponent ≤ |r|
  lt_exponent : |r| < 10 ^ (exponent + 1)
  canonical : IsCanonical exponent body

theorem IsRounded.isShownAs {x : ℚ} {d : Decimal} (h : IsRounded x d) (hx : 0 < x) :
    IsShownAs x d.value d.exponent d.text := by
  obtain ⟨hcount, hlow, hhigh⟩ := h.digits_bounds
  obtain ⟨hleast, hlt⟩ := h.value_bounds
  have hpos : 0 < d.value := (ten_zpow_pos _).trans_le hleast
  have habs : |d.value| = d.value := abs_of_pos hpos
  refine ⟨?_, ?_, ⟨d.digits, d.exponent - d.count + 1, hhigh, ?_⟩, ?_, ?_, ?_, h.isCanonical_text⟩
  · rw [habs]
    exact Decimal.spells_text (by rwa [hcount]) (lt_of_lt_of_le (by decide) hlow)
  · rw [sign_pos hpos, sign_pos hx]
  · rw [habs, Decimal.value]
  · intro e helow hehigh
    rw [abs_of_pos hx] at helow hehigh
    exact h.abs_sub_le helow hehigh
  · rw [habs]
    exact hleast
  · rw [habs]
    exact hlt

theorem IsShownAs.neg {q r : ℚ} {exponent : Int} {body : List Char}
    (h : IsShownAs q r exponent body) : IsShownAs (-q) (-r) exponent body := by
  refine ⟨?_, ?_, ?_, fun e hlow hhigh => ?_, ?_, ?_, h.canonical⟩
  · rw [abs_neg]
    exact h.spells
  · rw [Left.sign_neg, Left.sign_neg, h.sign]
  · rw [abs_neg]
    exact h.digits
  · rw [abs_neg] at hlow hhigh
    rw [← neg_sub_neg, neg_neg, neg_neg, abs_sub_comm]
    exact h.near e hlow hhigh
  · rw [abs_neg]
    exact h.exponent_le
  · rw [abs_neg]
    exact h.lt_exponent

theorem Binary.text_eq {b : Binary} (h : 0 < b.mantissa) :
    b.text = if b.signed < 0 then '-' :: (significant significantDigits (.ofBinary b)).text
      else (significant significantDigits (.ofBinary b)).text := by
  rw [text, if_neg h.ne']
  simp only [signed_neg_iff h]

/-- A finite number that is not zero is shown as its rounding to fourteen digits, in canonical form
and with a minus exactly in front of a negative number. The exponent of the rounded number decides
the notation. Nothing fails when the text is laid out from scientific notation. -/
theorem display_canonical (x : Float) (hfinite : x.isFinite = true) (hzero : (x == 0.0) = false) :
    ∃ (r : ℚ) (exponent : Int) (body : List Char),
      (display x).toList = (if exactValue x < 0 then '-' :: body else body)
      ∧ IsShownAs (exactValue x) r exponent body
      ∧ ∃ d, IsRounded |exactValue x| d ∧ layOut d.scientific = some body := by
  have hne := exactValue_ne_zero hfinite hzero
  obtain ⟨b, hb⟩ := Option.isSome_iff_exists.mp ((Binary.isSome_ofFloat? x).trans hfinite)
  rw [Binary.exactValue_eq hb] at hne ⊢
  have hpos : 0 < b.mantissa := by
    rw [Nat.pos_iff_ne_zero]
    intro hmantissa
    apply hne
    rw [← abs_eq_zero, Binary.abs_signed, Binary.value, hmantissa, Nat.cast_zero, zero_mul]
  have hrounded := isRounded_significant (Quotient.isPositive_ofBinary hpos)
  rw [Quotient.value_ofBinary] at hrounded
  generalize hd : significant significantDigits (.ofBinary b) = d at hrounded
  have hshown := hrounded.isShownAs (Binary.value_pos hpos)
  obtain ⟨hcount, hlow, hhigh⟩ := hrounded.digits_bounds
  have hdouble := Binary.isDouble_of_ofFloat? hb
  obtain ⟨hleast, hgreatest⟩ := hrounded.exponent_bounds (hdouble.le_value hpos) hdouble.value_le
  have htext : (display x).toList = if b.signed < 0 then '-' :: d.text else d.text := by
    rw [display_of_ofFloat? hb, Binary.text_eq hpos, hd]
  have hlaid : layOut d.scientific = some d.text :=
    layOut_scientific hcount (lt_of_lt_of_le (by decide) hlow) hhigh (by omega) (by omega)
  have hsteps : ∃ d', IsRounded |b.signed| d' ∧ layOut d'.scientific = some d.text := by
    rw [Binary.abs_signed]
    exact ⟨d, hrounded, hlaid⟩
  cases hsign : b.negative with
  | false =>
    refine ⟨d.value, d.exponent, d.text, htext, ?_, hsteps⟩
    rw [Binary.signed, hsign]
    exact hshown
  | true =>
    refine ⟨-d.value, d.exponent, d.text, htext, ?_, hsteps⟩
    rw [Binary.signed, hsign]
    exact hshown.neg

/-- The least double, which has hundreds of digits and an exponent of three. -/
theorem display_canonical_least :
    (5e-324 : Float).isFinite = true ∧ ((5e-324 : Float) == 0.0) = false
      ∧ ∃ (r : ℚ) (exponent : Int) (body : List Char),
        (display 5e-324).toList = (if exactValue 5e-324 < 0 then '-' :: body else body)
        ∧ IsShownAs (exactValue 5e-324) r exponent body
        ∧ ∃ d, IsRounded |exactValue 5e-324| d ∧ layOut d.scientific = some body :=
  have hfinite : (5e-324 : Float).isFinite = true := by decide +kernel
  have hzero : ((5e-324 : Float) == 0.0) = false := by decide +kernel
  ⟨hfinite, hzero, display_canonical _ hfinite hzero⟩

/-- A carry into the decade of the first exponent that is written. -/
example : display 999999999999999900000 = "1e+21" := by decide +kernel

end Number

end SumSheet
