/-
SumSheet.Proofs.PercentageReading — which texts are percentages in words,
and which numbers stand in them.

A text is read as a percentage exactly if it has the shape of a form, and
the numbers of the percentage are the doubles nearest to the two decimals
in it (`Percentage.read?_spells`). The forms exclude each other, so that
the order in which they are tried makes no difference.

Digits of other scripts are decimal digits too, but no number is written
with them here. A shape has no place for one: its characters are ASCII
but for the blanks, and no blank is a digit.

  §1 Numbers — a literal is read as the nearest double.
  §2 Digits  — those of other scripts are in no percentage.
  §3 Texts   — that are percentages in words.
-/
import SumSheet.Proofs.NamesRead
import SumSheet.Proofs.NearestDoubles
import SumSheet.Proofs.PercentageShapes

namespace SumSheet

open Text Number

/-! ## §1 Numbers -/

/-- A literal is read as the double nearest to the number that it spells, and no other double is
nearest to it. -/
theorem Literal.isNearestDouble_iff {l : Literal} {x : Float} :
    IsNearestDouble l.number x ↔ x = l.value :=
  isNearestDouble_ofDecimal_iff

namespace Percentage

/-! ## §2 Digits -/

theorem isAsciiDigit_of_isFiller {c : Char} (h : IsFiller c) (hdigit : isDigit c = true) :
    isAsciiDigit c = true := by
  rcases h with h | h | rfl | rfl
  · exact h
  · rw [isDigit_of_isBlank h] at hdigit
    cases hdigit
  · exact absurd hdigit (by decide +kernel)
  · exact absurd hdigit (by decide +kernel)

theorem isDigit_of_mem_mark {form : PercentForm} {c : Char} (h : c ∈ form.mark) :
    isDigit c = false := by
  rw [← filter_mark] at h
  have hmark := List.of_mem_filter h
  simp only [isMark, Bool.or_eq_true, beq_iff_eq] at hmark
  rcases hmark with ((rfl | rfl) | rfl) | rfl
  all_goals decide +kernel

/-- Every digit of a percentage is an ASCII digit. -/
theorem Spells.isAsciiDigit_of_isDigit {text : List Char} {q : Percentage} (h : Spells text q)
    {c : Char} (hc : c ∈ text) (hdigit : isDigit c = true) : isAsciiDigit c = true := by
  rcases h.characters c hc with hfiller | hmark
  · exact isAsciiDigit_of_isFiller hfiller hdigit
  · rw [isDigit_of_mem_mark hmark] at hdigit
    cases hdigit

/-! ## §3 Texts -/

/-- **A text is read as a percentage exactly if it spells one.** The forms exclude each other, and
the order in which they are tried makes no difference. A text with a digit of another script is read
in no form. The numbers that a percentage consists of are the doubles nearest to the two decimals
that are spelled. -/
theorem read?_spells :
    (∀ (text : List Char) (q : Percentage), read? text = some q ↔ Spells text q)
    ∧ (∀ (text : List Char) (form form' : PercentForm),
      (readAs? form text).isSome = true → (readAs? form' text).isSome = true → form = form')
    ∧ (∀ (text : List Char) (order : List PercentForm), (∀ form, form ∈ order) →
      order.findSome? (readAs? · text) = read? text)
    ∧ (∀ (text : List Char) (c : Char), c ∈ text → isDigit c = true → isAsciiDigit c = false →
      ∀ form, readAs? form text = none)
    ∧ ∀ (l : Literal), l.IsPlain → ∀ x : Float, IsNearestDouble l.number x ↔ x = l.value := by
  refine ⟨fun _ _ => read?_eq_some_iff, ?_, ?_, ?_, fun _ _ _ => Literal.isNearestDouble_iff⟩
  · intro text form form' h h'
    obtain ⟨q, hq⟩ := Option.isSome_iff_exists.mp h
    obtain ⟨q', hq'⟩ := Option.isSome_iff_exists.mp h'
    obtain ⟨hspells, rfl⟩ := readAs?_eq_some_iff.mp hq
    obtain ⟨hspells', rfl⟩ := readAs?_eq_some_iff.mp hq'
    exact hspells.form_eq hspells'
  · intro text order hall
    refine Option.ext fun q => ?_
    rw [findSome?_readAs?_iff hall, read?_eq_some_iff]
  · intro text c hc hdigit hother form
    refine Option.eq_none_iff_forall_ne_some.mpr fun q hq => ?_
    have hascii := (readAs?_eq_some_iff.mp hq).1.isAsciiDigit_of_isDigit hc hdigit
    rw [hother] at hascii
    cases hascii

/-- A tenth, as it is spelled in full. -/
def tenth : Literal :=
  ⟨['0'], some ['1'], none, by simp [isAsciiDigit], by simp [isAsciiDigit], by simp⟩

theorem number_tenth : tenth.number = 1 / 10 := by
  have hdigits : ofDigits ['0', '1'] = 1 := by decide
  simp [Literal.number, tenth, Literal.places, Literal.exponentValue, hdigits]

/-- A discount is found when its form is tried first too, and is none with digits of another
script. No double is a tenth, but one is nearest to it. -/
theorem read?_spells_off :
    (readAs? .off "25% off 80".toList).isSome = true
      ∧ [PercentForm.off, .decrease, .increase, .share].findSome? (readAs? · "25% off 80".toList)
        = read? "25% off 80".toList
      ∧ (∀ form, readAs? form "\u0662\u0665% off 80".toList = none)
      ∧ IsNearestDouble (1 / 10) 0.1 := by
  obtain ⟨-, -, horder, hdigits, hnumbers⟩ := read?_spells
  refine ⟨by decide +kernel, horder _ _ fun form => by cases form <;> simp, ?_, ?_⟩
  · exact hdigits _ '\u0662' (by decide +kernel) (by decide +kernel) (by decide +kernel)
  · rw [← number_tenth]
    exact (hnumbers tenth ⟨by simp [tenth], by simp [tenth], rfl⟩ 0.1).mpr (by decide +kernel)

end Percentage

end SumSheet
