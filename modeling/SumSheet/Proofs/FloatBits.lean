/-
SumSheet.Proofs.FloatBits — finite doubles and the bits that hold them.

`Binary.ofFloat?` reads a double off its bits. What a double is to the
language is another thing, an unpacked float, and the two must agree
before anything can be said of the numbers that a sheet reads and shows.

  §1 Fields  — unpacked floats by sign, exponent field and fraction, and
               that packing them gives the three fields back.
  §2 Bits    — the bits of a double that is made of bits, or negated.
  §3 Values  — `Binary.ofFloat?` finds a value exactly in finite doubles,
               and negation turns only its sign.
  §4 Doubles — which values are those of doubles, and the bits of a
               number of units.
-/
import Mathlib
import SumSheet.Number.Quotient

namespace SumSheet.Number

open Float.Model (Format UnpackedFloat)
open Float.Model.UnpackedFloat

/-! ## §1 Fields -/

/-- The unpacked form of a double with these fields. -/
def unpacked (sign : Sign) (field : BitVec 11) (fraction : BitVec 52) : UnpackedFloat :=
  if field = -1#11 then
    if fraction = 0#52 then .infinity sign else .notANumber
  else if field = 0#11 then
    if h : fraction = 0#52 then .zero sign
    else .finite sign fraction.toNat (-1074)
      (by simpa [BitVec.toNat_pos, BitVec.pos_iff_ne_zero] using h)
  else .finite sign (2 ^ 52 + fraction.toNat) (field.toNat - 1075) (by omega)

theorem unpack_eq_unpacked (bits : BitVec 64) :
    unpack .binary64 bits
      = unpacked (Sign.ofBitVec (@unpackSign .binary64 bits))
          (@unpackExponent .binary64 bits) (@unpackMantissa .binary64 bits) := by
  simp only [unpack, unpacked]
  split
  · rfl
  · split
    · rename_i hzero
      split
      · rfl
      · congr 1
        rw [hzero]
        rfl
    · have hfraction := (@unpackMantissa .binary64 bits).isLt
      congr 1
      rw [BitVec.toNat_append, ← Nat.shiftLeft_add_eq_or_of_lt hfraction]
      rfl

theorem toNat_packComponents (sign : Sign) (field : BitVec 11) (fraction : BitVec 52) :
    (packComponents .binary64 sign field fraction).toNat
      = sign.toBitVec.toNat * 2 ^ 63 + field.toNat * 2 ^ 52 + fraction.toNat := by
  have hfraction := fraction.isLt
  have hfield := field.isLt
  rw [packComponents, BitVec.toNat_append, BitVec.toNat_append,
    ← Nat.shiftLeft_add_eq_or_of_lt (by omega), ← Nat.shiftLeft_add_eq_or_of_lt (by omega),
    Nat.shiftLeft_eq, Nat.shiftLeft_eq]
  omega

theorem toNat_unpackMantissa (bits : BitVec 64) :
    (@unpackMantissa .binary64 bits).toNat = bits.toNat % 2 ^ 52 := by
  simp [unpackMantissa, BitVec.extractLsb]

theorem toNat_unpackExponent (bits : BitVec 64) :
    (@unpackExponent .binary64 bits).toNat = bits.toNat / 2 ^ 52 % 2 ^ 11 := by
  simp [unpackExponent, BitVec.extractLsb, Nat.shiftRight_eq_div_pow]

theorem toNat_unpackSign (bits : BitVec 64) :
    (@unpackSign .binary64 bits).toNat = bits.toNat / 2 ^ 63 := by
  have hbits := bits.isLt
  simp [unpackSign, BitVec.extractLsb, Nat.shiftRight_eq_div_pow]
  omega

/-- Packing gives the fields back, unless they are those of one of the many NaNs. -/
theorem pack_unpacked (sign : Sign) {field : BitVec 11} {fraction : BitVec 52}
    (h : field = -1#11 → fraction = 0#52) :
    pack .binary64 (unpacked sign field fraction)
      = packComponents .binary64 sign field fraction := by
  have hfraction := fraction.isLt
  have hfield := field.isLt
  unfold unpacked
  split
  · rename_i hall
    rw [if_pos (h hall), hall, h hall]
    rfl
  · rename_i hall
    split
    · rename_i hzero
      split
      · rename_i hnone
        rw [hzero, hnone]
        rfl
      · rename_i hsome
        have hlog : fraction.toNat.log2 < 52 :=
          (Nat.log2_lt (by simpa [← BitVec.toNat_inj] using hsome)).mpr hfraction
        simp only [pack]
        rw [if_neg (by decide), if_neg (by simp only [Format.mantissaBits]; omega), hzero,
          BitVec.ofNat_toNat, BitVec.setWidth_eq]
    · rename_i hzero
      have hpos : 0 < field.toNat := by
        rw [BitVec.toNat_pos, BitVec.pos_iff_ne_zero]
        exact hzero
      have htop : field.toNat ≠ 2047 := fun htop => hall (BitVec.eq_of_toNat_eq htop)
      have hlog : (2 ^ 52 + fraction.toNat).log2 = 52 :=
        (Nat.log2_eq_iff (by omega)).mpr ⟨by omega, by omega⟩
      have hbiased : ((field.toNat : Int) - 1075 + (Format.exponentBias .binary64 : Nat)
          + (52 : Nat)).toNat = field.toNat := by
        simp only [Format.exponentBias]
        omega
      simp only [pack]
      rw [hbiased, if_neg (by show ¬ 2 ^ 11 ≤ field.toNat + 1; omega),
        if_pos (by rw [hlog]; rfl), BitVec.ofNat_toNat, BitVec.setWidth_eq]
      congr 1
      apply BitVec.eq_of_toNat_eq
      rw [BitVec.toNat_ofNat]
      omega

theorem neg_unpacked (sign : Sign) (field : BitVec 11) (fraction : BitVec 52) :
    (unpacked sign field fraction).neg = unpacked (-sign) field fraction := by
  unfold unpacked
  split
  · split <;> rfl
  · split
    · split <;> rfl
    · rfl

theorem isFinite_unpacked (sign : Sign) (field : BitVec 11) (fraction : BitVec 52) :
    (unpacked sign field fraction).isFinite = true ↔ field ≠ -1#11 := by
  unfold unpacked
  split
  · rename_i hall
    split <;> simp only [UnpackedFloat.isFinite, hall, ne_eq, not_true_eq_false, reduceCtorEq]
  · rename_i hall
    split
    · split <;> simp only [UnpackedFloat.isFinite, hall, ne_eq, not_false_eq_true]
    · simp only [UnpackedFloat.isFinite, hall, ne_eq, not_false_eq_true]

theorem toBitVec_ofBitVec (v : BitVec 1) : (Sign.ofBitVec v).toBitVec = v := by
  revert v
  decide

theorem toNat_toBitVec_neg (v : BitVec 1) :
    (-Sign.ofBitVec v).toBitVec.toNat = 1 - v.toNat := by
  revert v
  decide

/-! ## §2 Bits -/

/-- These are the bits of an infinity or of a finite double, and not of a NaN. -/
def IsOrdered (bits : Nat) : Prop :=
  bits / 2 ^ 52 % 2 ^ 11 = 2047 → bits % 2 ^ 52 = 0

theorem unpackMantissa_eq_zero {bits : UInt64} (h : IsOrdered bits.toNat)
    (hall : @unpackExponent .binary64 bits.toBitVec = -1#11) :
    @unpackMantissa .binary64 bits.toBitVec = 0#52 := by
  have hfield := congrArg BitVec.toNat hall
  rw [toNat_unpackExponent] at hfield
  apply BitVec.eq_of_toNat_eq
  rw [toNat_unpackMantissa]
  exact h hfield

/-- A double made of bits has these bits. -/
theorem toBits_ofBits {bits : UInt64} (h : IsOrdered bits.toNat) :
    (Float.ofBits bits).toBits = bits := by
  have hpack : pack .binary64 (unpack .binary64 bits.toBitVec) = bits.toBitVec := by
    rw [unpack_eq_unpacked, pack_unpacked _ (unpackMantissa_eq_zero h)]
    apply BitVec.eq_of_toNat_eq
    rw [toNat_packComponents, toBitVec_ofBitVec, toNat_unpackSign, toNat_unpackExponent,
      toNat_unpackMantissa]
    have hbits := bits.toBitVec.isLt
    omega
  show UInt64.ofBitVec (pack .binary64 (unpack .binary64 bits.toBitVec)) = bits
  rw [hpack]

theorem toNat_ofNat_of_le {n : Nat} (h : n ≤ Quotient.infinityBits) : (UInt64.ofNat n).toNat = n := by
  rw [Quotient.infinityBits] at h
  rw [UInt64.toNat_ofNat']
  omega

theorem isOrdered_ofNat {n : Nat} (h : n ≤ Quotient.infinityBits) :
    IsOrdered (UInt64.ofNat n).toNat := by
  intro hfield
  rw [toNat_ofNat_of_le h] at hfield ⊢
  rw [Quotient.infinityBits] at h
  omega

/-- A number up to the bits of infinity is made of its own bits. -/
theorem toBits_ofNat {n : Nat} (h : n ≤ Quotient.infinityBits) :
    (Float.ofBits (UInt64.ofNat n)).toBits.toNat = n := by
  rw [toBits_ofBits (isOrdered_ofNat h), toNat_ofNat_of_le h]

theorem unpack_toModel (x : Float) :
    x.toModel.unpack
      = unpacked (Sign.ofBitVec (@unpackSign .binary64 x.toBits.toBitVec))
          (@unpackExponent .binary64 x.toBits.toBitVec)
          (@unpackMantissa .binary64 x.toBits.toBitVec) :=
  unpack_eq_unpacked _

/-- Negation turns the first bit. -/
theorem toBits_neg {x : Float} (h : IsOrdered x.toBits.toNat) :
    (-x).toBits.toNat
      = (1 - x.toBits.toNat / 2 ^ 63) * 2 ^ 63 + x.toBits.toNat % 2 ^ 63 := by
  have hbits := x.toBits.toBitVec.isLt
  rw [UInt64.toNat_toBitVec] at hbits
  show (pack .binary64 x.toModel.unpack.neg).toNat = _
  rw [unpack_toModel, neg_unpacked, pack_unpacked _ (unpackMantissa_eq_zero h),
    toNat_packComponents, toNat_toBitVec_neg, toNat_unpackSign, toNat_unpackExponent,
    toNat_unpackMantissa, UInt64.toNat_toBitVec]
  omega

theorem isFinite_iff_field (x : Float) :
    x.isFinite = true ↔ x.toBits.toNat / 2 ^ 52 % 2 ^ 11 ≠ 2047 := by
  have hfield := toNat_unpackExponent x.toBits.toBitVec
  rw [UInt64.toNat_toBitVec] at hfield
  show x.toModel.unpack.isFinite = true ↔ _
  rw [unpack_toModel, isFinite_unpacked, ← hfield, ne_eq, ← BitVec.toNat_inj]
  exact Iff.rfl

theorem isNaN_of_isFinite {x : Float} (h : x.isFinite = true) : x.isNaN = false := by
  have hfinite : x.toModel.unpack.isFinite = true := h
  show x.toModel.unpack.isNaN = false
  cases hx : x.toModel.unpack with
  | notANumber => rw [hx] at hfinite; cases hfinite
  | infinity sign => rfl
  | zero sign => rfl
  | finite sign mantissa exponent hpos => rfl

/-! ## §3 Values -/

theorem pow2_eq (n : Nat) : pow2 n = 2 ^ n := rfl

namespace Binary

/-- The value without its sign. -/
def value (b : Binary) : ℚ :=
  b.mantissa * (2 : ℚ) ^ b.exponent

/-- The value with its sign turned. -/
def opposite (b : Binary) : Binary :=
  { b with negative := !b.negative }

/-- What bits make, field by field. -/
def ofBits? (bits : Nat) : Option Binary :=
  if bits / 2 ^ 52 % 2 ^ 11 = 2047 then none
  else if bits / 2 ^ 52 % 2 ^ 11 = 0 then some ⟨bits / 2 ^ 63 == 1, bits % 2 ^ 52, -1074⟩
  else some ⟨bits / 2 ^ 63 == 1, bits % 2 ^ 52 + 2 ^ 52, (bits / 2 ^ 52 % 2 ^ 11 : Nat) - 1075⟩

theorem ofFloat?_eq (x : Float) : ofFloat? x = ofBits? x.toBits.toNat := by
  simp only [ofFloat?, ofBits?, fractionBits, leastExponent, pow2_eq, beq_iff_eq, Nat.reducePow,
    sub_add, Int.reduceNeg, sub_neg_eq_add, Int.reduceAdd]

theorem isSome_ofFloat? (x : Float) : (ofFloat? x).isSome = x.isFinite := by
  rw [Bool.eq_iff_iff, isFinite_iff_field, ofFloat?_eq, ofBits?]
  split
  · rename_i hfield
    exact iff_of_false (by simp) (not_not.mpr hfield)
  · rename_i hfield
    split <;> exact iff_of_true rfl hfield

theorem isFinite_of_ofFloat? {x : Float} {b : Binary} (h : ofFloat? x = some b) :
    x.isFinite = true := by
  rw [← isSome_ofFloat?, h, Option.isSome_some]

theorem ofBits?_turn {bits : Nat} (h : bits < 2 ^ 64) :
    ofBits? ((1 - bits / 2 ^ 63) * 2 ^ 63 + bits % 2 ^ 63) = (ofBits? bits).map opposite := by
  have hfield : ((1 - bits / 2 ^ 63) * 2 ^ 63 + bits % 2 ^ 63) / 2 ^ 52 % 2 ^ 11
      = bits / 2 ^ 52 % 2 ^ 11 := by omega
  have hfraction : ((1 - bits / 2 ^ 63) * 2 ^ 63 + bits % 2 ^ 63) % 2 ^ 52 = bits % 2 ^ 52 := by
    omega
  have hsign : (((1 - bits / 2 ^ 63) * 2 ^ 63 + bits % 2 ^ 63) / 2 ^ 63 == 1)
      = !(bits / 2 ^ 63 == 1) := by
    rw [Bool.eq_iff_iff, Bool.not_eq_true', beq_iff_eq, beq_eq_false_iff_ne]
    omega
  simp only [ofBits?, hfield, hfraction, hsign]
  split
  · rfl
  · split <;> rfl

/-- Negation turns the sign and nothing else. -/
theorem ofFloat?_neg {x : Float} {b : Binary} (h : ofFloat? x = some b) :
    ofFloat? (-x) = some b.opposite := by
  have hfinite := (isFinite_iff_field x).mp (isFinite_of_ofFloat? h)
  have hbits := x.toBits.toBitVec.isLt
  rw [UInt64.toNat_toBitVec] at hbits
  rw [ofFloat?_eq, toBits_neg (fun hfield => absurd hfield hfinite), ofBits?_turn hbits,
    ← ofFloat?_eq, h, Option.map_some]

/-! ## §4 Doubles -/

/-- The value is that of a double. -/
structure IsDouble (b : Binary) : Prop where
  mantissa_lt : b.mantissa < 2 ^ 53
  le_exponent : -1074 ≤ b.exponent
  exponent_le : b.exponent ≤ 971

theorem isDouble_of_ofFloat? {x : Float} {b : Binary} (h : ofFloat? x = some b) :
    b.IsDouble := by
  rw [ofFloat?_eq, ofBits?] at h
  split at h
  · cases h
  · split at h
    · simp only [Option.some.injEq] at h
      subst h
      exact ⟨by show _ % _ < _; omega, le_refl (-1074), by show (-1074 : Int) ≤ _; omega⟩
    · simp only [Option.some.injEq] at h
      subst h
      exact ⟨by show _ % _ + _ < _; omega, by show _ ≤ _ - _; omega, by show _ - _ ≤ _; omega⟩

/-- A number of units makes a double, if the unit is the gap between the doubles of this size. -/
theorem ofFloat?_units {units : Nat} {e : Int} (he : -1074 ≤ e) (hunits : units ≤ 2 ^ 53)
    (hfull : e = -1074 ∨ 2 ^ 52 ≤ units)
    (hbits : (e + 1074).toNat * 2 ^ 52 + units < Quotient.infinityBits) :
    ∃ b, ofFloat? (Float.ofBits (UInt64.ofNat ((e + 1074).toNat * 2 ^ 52 + units))) = some b
      ∧ b.negative = false ∧ b.value = units * (2 : ℚ) ^ e := by
  generalize hn : (e + 1074).toNat * 2 ^ 52 + units = n at hbits ⊢
  rw [ofFloat?_eq, toBits_ofNat hbits.le]
  rw [Quotient.infinityBits] at hbits
  rw [ofBits?, if_neg (by omega)]
  have hsign : (n / 2 ^ 63 == 1) = false := by
    rw [beq_eq_false_iff_ne]
    omega
  split
  · rename_i hfield
    refine ⟨_, rfl, hsign, ?_⟩
    obtain rfl : e = -1074 := by omega
    have hfraction : n % 2 ^ 52 = units := by omega
    simp only [value, hfraction]
  · rename_i hfield
    refine ⟨_, rfl, hsign, ?_⟩
    have hnormal : 2 ^ 52 ≤ units := by omega
    rcases Nat.lt_or_eq_of_le hunits with hlt | heq
    · have hfraction : n % 2 ^ 52 + 2 ^ 52 = units := by omega
      have hexponent : ((n / 2 ^ 52 % 2 ^ 11 : Nat) : Int) - 1075 = e := by omega
      simp only [value, hfraction, hexponent]
    · -- the units fill up the next power of two
      have hfraction : n % 2 ^ 52 + 2 ^ 52 = 2 ^ 52 := by omega
      have hexponent : ((n / 2 ^ 52 % 2 ^ 11 : Nat) : Int) - 1075 = e + 1 := by omega
      simp only [value, hfraction, hexponent, heq, zpow_add_one₀ (two_ne_zero' ℚ)]
      push_cast
      ring

end Binary

end SumSheet.Number
