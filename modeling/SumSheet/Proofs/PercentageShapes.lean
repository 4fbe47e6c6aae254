/-
SumSheet.Proofs.PercentageShapes — what a text looks like that is read as
a percentage.

`Percentage.read?` scans a text in up to four attempts. `Spells` says the
same of the text as a whole: it is put together from two literals, a
percent sign, a word or a sign between them, and blanks. A text is read
exactly if it has such a shape (`read?_eq_some_iff`), so whatever is to
be said of a text that is read, of the numbers in it or of the characters
it holds, is said of the shapes.

A reader takes off the front of a text all that goes on with a literal or
with blanks. So in front of a rest that does not go on with them, what it
takes is known (`literal?_text`), and the shapes are built of pieces that
end each other. The forms exclude each other for a simpler reason: what
is left of a text without its digits, points, blanks and percent sign is
the word or the sign of its form.

  §1 Literals
  §2 Readers — what each of them takes off the front of a text.
  §3 Shapes  — the texts that a form is read from.
  §4 Forms   — exclude each other, so they may be tried in any order.
-/
import Mathlib
import SumSheet.Percent
import SumSheet.Proofs.Arithmetic

namespace SumSheet

open Text Number

/-! ## §1 Literals -/

/-- There are digits in front of the point, and behind it if there is one, and no exponent. -/
structure Literal.IsPlain (l : Literal) : Prop where
  whole_ne_nil : l.whole ≠ []
  fraction_ne_nil : l.fraction ≠ some []
  exponent_eq : l.exponent = none

namespace Percentage

/-- A literal without a point. -/
theorem plain_whole {digits : List Char} (hdigits : ∀ c ∈ digits, isAsciiDigit c = true)
    (hsome : digits ≠ []) (rest : List Char) :
    ∃ l : Literal, l.IsPlain ∧ digits ++ rest = l.text ++ rest
      ∧ ofDecimal (ofDigits digits) 0 = l.value :=
  ⟨⟨digits, none, none, hdigits, by simp, .inl hsome⟩, ⟨hsome, by simp, rfl⟩,
    by simp [Literal.text, Literal.exponentText],
    by simp [Literal.value, Literal.places, Literal.exponentValue]⟩

theorem plain_pointed {digits places : List Char} (hdigits : ∀ c ∈ digits, isAsciiDigit c = true)
    (hsome : digits ≠ []) (hplaces : ∀ c ∈ places, isAsciiDigit c = true) (hsome' : places ≠ [])
    (rest : List Char) :
    ∃ l : Literal, l.IsPlain ∧ digits ++ '.' :: (places ++ rest) = l.text ++ rest
      ∧ ofDecimal (ofDigits (digits ++ places)) (-places.length) = l.value :=
  ⟨⟨digits, some places, none, hdigits, hplaces, .inl hsome⟩, ⟨hsome, by simpa, rfl⟩,
    by simp [Literal.text, Literal.exponentText],
    by simp [Literal.value, Literal.places, Literal.exponentValue]⟩

/-! ## §2 Readers -/

/-- What is read as a number is a literal, and the number is its value. -/
theorem plain_of_literal? {text rest : List Char} {x : Float}
    (h : literal? text = some (x, rest)) :
    ∃ l : Literal, l.IsPlain ∧ text = l.text ++ rest ∧ x = l.value := by
  have htext : text.takeWhile isAsciiDigit ++ text.dropWhile isAsciiDigit = text :=
    List.takeWhile_append_dropWhile
  have hdigits : ∀ c ∈ text.takeWhile isAsciiDigit, isAsciiDigit c = true :=
    fun _ hc => List.mem_takeWhile_imp hc
  simp only [literal?] at h
  split at h
  · cases h
  rename_i hsome
  rw [List.isEmpty_iff] at hsome
  split at h
  · rename_i behind hpoint
    split at h
    · cases h
      obtain ⟨l, hplain, hl, hvalue⟩ := plain_whole hdigits hsome (text.dropWhile isAsciiDigit)
      exact ⟨l, hplain, htext.symm.trans hl, hvalue⟩
    · rename_i hplaces
      rw [List.isEmpty_iff] at hplaces
      cases h
      obtain ⟨l, hplain, hl, hvalue⟩ := plain_pointed hdigits hsome
        (fun _ hc => List.mem_takeWhile_imp hc) hplaces (behind.dropWhile isAsciiDigit)
      refine ⟨l, hplain, ?_, hvalue⟩
      rw [← hl, List.takeWhile_append_dropWhile, ← hpoint, htext]
  · cases h
    obtain ⟨l, hplain, hl, hvalue⟩ := plain_whole hdigits hsome (text.dropWhile isAsciiDigit)
    exact ⟨l, hplain, htext.symm.trans hl, hvalue⟩

/-- Nothing goes on with a literal: neither a digit nor a point. -/
def EndsLiteral (rest : List Char) : Prop :=
  ∀ c ∈ rest.head?, isAsciiDigit c = false ∧ c ≠ '.'

theorem EndsLiteral.blanks {blanks rest : List Char} (hblanks : AreBlank blanks)
    (hrest : EndsLiteral rest) : EndsLiteral (blanks ++ rest) := by
  cases blanks with
  | nil => exact hrest
  | cons c blanks =>
    have hblank := hblanks c List.mem_cons_self
    have hdigit : isAsciiDigit c = false := by
      have hpart := isNamePart_of_isBlank hblank
      simp only [isNamePart, Bool.or_eq_false_iff] at hpart
      exact hpart.2
    have hpoint : c ≠ '.' := fun heq => absurd (heq ▸ hblank) (by decide)
    simp [EndsLiteral, hdigit, hpoint]

section

variable {digits rest : List Char} (hdigits : ∀ c ∈ digits, isAsciiDigit c = true)
  (hsome : digits ≠ []) (hrest : EndsLiteral rest)

include hdigits hsome hrest

/-- Digits are read as a whole, up to where something else follows. -/
theorem literal?_digits :
    literal? (digits ++ rest) = some (ofDecimal (ofDigits digits) 0, rest) := by
  have hbehind : ∀ c ∈ rest.head?, isAsciiDigit c = false := fun c hc => (hrest c hc).1
  simp only [literal?, takeWhile_run hdigits hbehind, dropWhile_run hdigits hbehind,
    List.isEmpty_iff, if_neg hsome]
  split
  · exact absurd rfl (hrest '.' rfl).2
  · rfl

theorem literal?_pointed {places : List Char} (hplaces : ∀ c ∈ places, isAsciiDigit c = true)
    (hsome' : places ≠ []) :
    literal? (digits ++ '.' :: (places ++ rest))
      = some (ofDecimal (ofDigits (digits ++ places)) (-places.length), rest) := by
  have hbehind : ∀ c ∈ rest.head?, isAsciiDigit c = false := fun c hc => (hrest c hc).1
  have hpoint : ∀ c ∈ ('.' :: (places ++ rest)).head?, isAsciiDigit c = false := by
    simp [isAsciiDigit]
  simp only [literal?, takeWhile_run hdigits hpoint, dropWhile_run hdigits hpoint,
    takeWhile_run hplaces hbehind, dropWhile_run hplaces hbehind, List.isEmpty_iff, if_neg hsome,
    if_neg hsome']

end

/-- A literal is read as a whole. -/
theorem literal?_text {l : Literal} (hl : l.IsPlain) {rest : List Char} (hrest : EndsLiteral rest) :
    literal? (l.text ++ rest) = some (l.value, rest) := by
  obtain ⟨hsome, hfraction, hexponent⟩ := hl
  have hplaces := l.isDigit_fraction
  simp only [Literal.text, Literal.exponentText, Literal.value, Literal.places,
    Literal.exponentValue, hexponent]
  cases h : l.fraction with
  | none => simpa using literal?_digits l.isDigit_whole hsome hrest
  | some places =>
    rw [h] at hplaces hfraction
    have hsome' : places ≠ [] := by simpa using hfraction
    simpa using literal?_pointed l.isDigit_whole hsome hrest hplaces hsome'

theorem text_of_behindWord? {word text rest : List Char}
    (h : behindWord? word text = some rest) : text = word ++ rest := by
  induction word generalizing text with
  | nil => simpa [behindWord?] using h
  | cons w word ih =>
    cases text with
    | nil => cases h
    | cons c text =>
      simp only [behindWord?, beq_iff_eq, Option.ite_none_right_eq_some] at h
      rw [h.1, ih h.2, List.cons_append]

theorem text_of_behindBlanks? {text rest : List Char} (h : behindBlanks? text = some rest) :
    ∃ blanks, text = blanks ++ rest ∧ blanks ≠ [] ∧ AreBlank blanks := by
  cases text with
  | nil => cases h
  | cons c text =>
    simp only [behindBlanks?, Option.ite_none_right_eq_some, Option.some.injEq] at h
    obtain ⟨hc, rfl⟩ := h
    obtain ⟨blanks, hblanks, htext, -⟩ := trimStart_eq_iff.mp (rfl : trimStart text = _)
    exact ⟨c :: blanks, by rw [List.cons_append, ← htext], List.cons_ne_nil _ _,
      by simpa [AreBlank, hc] using hblanks⟩

theorem behindWord?_append (word rest : List Char) :
    behindWord? word (word ++ rest) = some rest := by
  induction word with
  | nil => rfl
  | cons w word ih => simpa [behindWord?] using ih

section

variable {blanks rest : List Char} (hblanks : AreBlank blanks)
  (hrest : ∀ c ∈ rest.head?, isBlank c = false)

include hblanks hrest

theorem trimStart_run : trimStart (blanks ++ rest) = rest :=
  trimStart_eq_iff.mpr ⟨blanks, hblanks, rfl, hrest⟩

theorem behindBlanks?_append (hsome : blanks ≠ []) :
    behindBlanks? (blanks ++ rest) = some rest := by
  obtain ⟨c, blanks, rfl⟩ := List.exists_cons_of_ne_nil hsome
  obtain ⟨hc, hblanks⟩ := List.forall_mem_cons.mp hblanks
  rw [List.cons_append, behindBlanks?, if_pos hc, trimStart_run hblanks hrest]

end

/-- A literal begins with a digit, and so with no blank. -/
theorem isBlank_head_text {l : Literal} (h : l.IsPlain) (rest : List Char) :
    ∀ c ∈ (l.text ++ rest).head?, isBlank c = false := by
  obtain ⟨c, whole, hwhole⟩ := List.exists_cons_of_ne_nil h.whole_ne_nil
  have hdigit : isAsciiDigit c = true := l.isDigit_whole c (by simp [hwhole])
  have hblank : isBlank c = false := isBlank_of_isNamePart (by simp [isNamePart, hdigit])
  simp [Literal.text, hwhole, hblank]

/-! ## §3 Shapes -/

end Percentage

namespace PercentForm

/-- The word between the two numbers, in the forms that have one. -/
def word? : PercentForm → Option (List Char)
  | share => some ['o', 'f']
  | off => some ['o', 'f', 'f']
  | increase | decrease => none

/-- The sign between the two numbers, in the forms that have one. -/
def sign? : PercentForm → Option Char
  | increase => some '+'
  | decrease => some '-'
  | share | off => none

/-- The word or the sign between the two numbers. -/
def mark (form : PercentForm) : List Char :=
  form.word?.getD form.sign?.toList

theorem mark_of_word? {form : PercentForm} {word : List Char} (h : form.word? = some word) :
    form.mark = word := by
  rw [mark, h, Option.getD_some]

theorem mark_of_sign? {form : PercentForm} {sign : Char} (h : form.sign? = some sign) :
    form.mark = [sign] := by
  cases form with
  | increase | decrease => cases h; rfl
  | share | off => cases h

theorem mark_injective : Function.Injective mark := by
  intro form form' h
  cases form <;> cases form' <;> first | rfl | cases h

end PercentForm

namespace Percentage

/-- The text spells the percentage: a number, the percent sign, a word between blanks and another
number; or a number, a sign, another number and the percent sign, where blanks may stand around
the sign. -/
inductive Spells : List Char → Percentage → Prop
  | phrase {form : PercentForm} {word before after : List Char} {percent base : Literal}
      (hword : form.word? = some word) (hpercent : percent.IsPlain) (hbase : base.IsPlain)
      (hbefore : AreBlank before) (hbefore_some : before ≠ [])
      (hafter : AreBlank after) (hafter_some : after ≠ []) :
      Spells (percent.text ++ '%' :: (before ++ (word ++ (after ++ base.text))))
        ⟨form, percent.value, base.value⟩
  | change {form : PercentForm} {sign : Char} {before after : List Char} {base percent : Literal}
      (hsign : form.sign? = some sign) (hbase : base.IsPlain) (hpercent : percent.IsPlain)
      (hbefore : AreBlank before) (hafter : AreBlank after) :
      Spells (base.text ++ (before ++ sign :: (after ++ (percent.text ++ ['%']))))
        ⟨form, percent.value, base.value⟩

theorem spells_of_readPhrase? {text word : List Char} {form : PercentForm} {q : Percentage}
    (hform : form.word? = some word) (h : readPhrase? word form text = some q) :
    Spells text q ∧ q.form = form := by
  simp only [readPhrase?, Option.bind_eq_bind, Option.bind_eq_some_iff,
    Option.ite_none_right_eq_some, List.isEmpty_iff, Option.some.injEq] at h
  obtain ⟨⟨_, _⟩, hpercent, _, hmark, _, hgap, _, hword, _, hgap', ⟨_, _⟩, hbase, rfl, rfl⟩ := h
  obtain ⟨percent, hplain, rfl, rfl⟩ := plain_of_literal? hpercent
  obtain rfl := text_of_behindWord? hmark
  obtain ⟨before, rfl, hbefore_some, hbefore⟩ := text_of_behindBlanks? hgap
  obtain rfl := text_of_behindWord? hword
  obtain ⟨after, rfl, hafter_some, hafter⟩ := text_of_behindBlanks? hgap'
  obtain ⟨base, hplain', rfl, rfl⟩ := plain_of_literal? hbase
  rw [List.append_nil]
  exact ⟨.phrase hform hplain hplain' hbefore hbefore_some hafter hafter_some, rfl⟩

theorem spells_of_readChange? {text : List Char} {form : PercentForm} {sign : Char}
    {q : Percentage} (hform : form.sign? = some sign) (h : readChange? sign form text = some q) :
    Spells text q ∧ q.form = form := by
  simp only [readChange?, Option.bind_eq_bind, Option.bind_eq_some_iff,
    Option.ite_none_right_eq_some, List.isEmpty_iff, Option.some.injEq] at h
  obtain ⟨⟨_, behindBase⟩, hbase, behindSign, hsign, ⟨_, behindPercent⟩, hpercent, _, hmark, rfl,
    rfl⟩ := h
  obtain ⟨base, hplain, rfl, rfl⟩ := plain_of_literal? hbase
  obtain ⟨before, hbefore, hbefore_text, -⟩ :=
    trimStart_eq_iff.mp (rfl : trimStart behindBase = _)
  obtain ⟨after, hafter, hafter_text, -⟩ := trimStart_eq_iff.mp (rfl : trimStart behindSign = _)
  obtain ⟨percent, hplain', hpercent_text, rfl⟩ := plain_of_literal? hpercent
  have hsign_text : trimStart behindBase = [sign] ++ behindSign := text_of_behindWord? hsign
  have hmark_text : behindPercent = ['%'] ++ [] := text_of_behindWord? hmark
  rw [hbefore_text, hsign_text, hafter_text, hpercent_text, hmark_text]
  exact ⟨.change hform hplain hplain' hbefore hafter, rfl⟩

/-- All forms of a percentage have a percent sign. -/
theorem Spells.mem_percent {text : List Char} {q : Percentage} (h : Spells text q) :
    '%' ∈ text := by
  cases h <;> simp

section

variable {percent base : Literal} {before after : List Char} (hpercent : percent.IsPlain)
  (hbase : base.IsPlain) (hbefore : AreBlank before) (hafter : AreBlank after)

include hpercent hbase hbefore hafter

theorem readPhrase?_text {form : PercentForm} {word : List Char} (hform : form.word? = some word)
    (hbefore_some : before ≠ []) (hafter_some : after ≠ []) :
    readPhrase? word form (percent.text ++ '%' :: (before ++ (word ++ (after ++ base.text))))
      = some ⟨form, percent.value, base.value⟩ := by
  have hends : EndsLiteral ('%' :: (before ++ (word ++ (after ++ base.text)))) := by
    simp [EndsLiteral, isAsciiDigit]
  have hword : ∀ c ∈ (word ++ (after ++ base.text)).head?, isBlank c = false := by
    cases form with
    | share | off => cases hform; simp [show isBlank 'o' = false by decide]
    | increase | decrease => cases hform
  have hnumber := isBlank_head_text hbase []
  have hread : literal? (base.text ++ []) = some (base.value, []) :=
    literal?_text hbase (by simp [EndsLiteral])
  rw [List.append_nil] at hnumber hread
  simp [readPhrase?, literal?_text hpercent hends, behindWord?,
    behindBlanks?_append hbefore hword hbefore_some, behindWord?_append,
    behindBlanks?_append hafter hnumber hafter_some, hread]

theorem readChange?_text {form : PercentForm} {sign : Char} (hform : form.sign? = some sign) :
    readChange? sign form (base.text ++ (before ++ sign :: (after ++ (percent.text ++ ['%']))))
      = some ⟨form, percent.value, base.value⟩ := by
  have hsign : isAsciiDigit sign = false ∧ sign ≠ '.' ∧ isBlank sign = false := by
    cases form with
    | increase | decrease => cases hform; decide
    | share | off => cases hform
  have hends : EndsLiteral (before ++ sign :: (after ++ (percent.text ++ ['%']))) :=
    EndsLiteral.blanks hbefore (by simp [EndsLiteral, hsign])
  have hpercent_ends : EndsLiteral ['%'] := by
    simp [EndsLiteral, isAsciiDigit]
  have htrim : trimStart (before ++ sign :: (after ++ (percent.text ++ ['%'])))
      = sign :: (after ++ (percent.text ++ ['%'])) :=
    trimStart_run hbefore (by simp [hsign])
  simp [readChange?, literal?_text hbase hends, htrim, behindWord?,
    trimStart_run hafter (isBlank_head_text hpercent _), literal?_text hpercent hpercent_ends]

end

/-! ## §4 Forms -/

/-- The percentage in this form that the whole of a text spells. -/
def readAs? : PercentForm → List Char → Option Percentage
  | .share => readPhrase? ['o', 'f'] .share
  | .increase => readChange? '+' .increase
  | .decrease => readChange? '-' .decrease
  | .off => readPhrase? ['o', 'f', 'f'] .off

/-- **A form is read exactly from the texts of its shape.** -/
theorem readAs?_eq_some_iff {form : PercentForm} {text : List Char} {q : Percentage} :
    readAs? form text = some q ↔ Spells text q ∧ q.form = form := by
  constructor
  · intro h
    cases form with
    | share => exact spells_of_readPhrase? rfl h
    | increase => exact spells_of_readChange? rfl h
    | decrease => exact spells_of_readChange? rfl h
    | off => exact spells_of_readPhrase? rfl h
  · rintro ⟨hspells, rfl⟩
    cases hspells with
    | @phrase form word before after percent base hword hpercent hbase hbefore hsome hafter hsome' =>
      have hread := readPhrase?_text hpercent hbase hbefore hafter hword hsome hsome'
      cases form with
      | share => cases hword; exact hread
      | off => cases hword; exact hread
      | increase => cases hword
      | decrease => cases hword
    | @change form sign before after base percent hsign hbase hpercent hbefore hafter =>
      have hread := readChange?_text hpercent hbase hbefore hafter hsign
      cases form with
      | increase => cases hsign; exact hread
      | decrease => cases hsign; exact hread
      | share => cases hsign
      | off => cases hsign

/-- A character of the words and signs. -/
def isMark (c : Char) : Bool :=
  c == 'o' || c == 'f' || c == '+' || c == '-'

theorem filter_mark (form : PercentForm) : form.mark.filter isMark = form.mark := by
  cases form <;> rfl

/-- A character of the numbers, of the blanks or of the percent sign. -/
def IsFiller (c : Char) : Prop :=
  isAsciiDigit c = true ∨ isBlank c = true ∨ c = '.' ∨ c = '%'

theorem isMark_of_isFiller {c : Char} (h : IsFiller c) : isMark c = false := by
  by_contra hmark
  simp only [isMark, Bool.not_eq_false, Bool.or_eq_true, beq_iff_eq] at hmark
  rcases hmark with ((rfl | rfl) | rfl) | rfl
  all_goals exact absurd h (by unfold IsFiller; decide)

/-- A plain literal consists of digits and perhaps a point. -/
theorem isFiller_of_mem_text {l : Literal} (h : l.IsPlain) {c : Char} (hc : c ∈ l.text) :
    IsFiller c := by
  have hplaces := l.isDigit_fraction
  simp only [Literal.text, Literal.exponentText, h.exponent_eq, List.append_nil,
    List.mem_append] at hc
  rcases hc with hc | hc
  · exact .inl (l.isDigit_whole c hc)
  · cases hfraction : l.fraction with
    | none => simp [hfraction] at hc
    | some places =>
      rw [hfraction] at hc hplaces
      rcases List.mem_cons.mp hc with rfl | hc
      · exact .inr (.inr (.inl rfl))
      · exact .inl (hplaces c hc)

theorem isFiller_of_mem_blanks {blanks : List Char} (h : AreBlank blanks) {c : Char}
    (hc : c ∈ blanks) : IsFiller c :=
  .inr (.inl (h c hc))

theorem isFiller_percent : IsFiller '%' :=
  .inr (.inr (.inr rfl))

/-- What a text consists of that spells a percentage. -/
theorem Spells.characters {text : List Char} {q : Percentage} (h : Spells text q) :
    ∀ c ∈ text, IsFiller c ∨ c ∈ q.form.mark := by
  intro c hc
  cases h with
  | phrase hword hpercent hbase hbefore _ hafter _ =>
    simp only [List.mem_append, List.mem_cons] at hc
    rcases hc with hc | rfl | hc | hc | hc | hc
    · exact .inl (isFiller_of_mem_text hpercent hc)
    · exact .inl isFiller_percent
    · exact .inl (isFiller_of_mem_blanks hbefore hc)
    · exact .inr (PercentForm.mark_of_word? hword ▸ hc)
    · exact .inl (isFiller_of_mem_blanks hafter hc)
    · exact .inl (isFiller_of_mem_text hbase hc)
  | change hsign hbase hpercent hbefore hafter =>
    simp only [List.mem_append, List.mem_cons, List.not_mem_nil, or_false] at hc
    rcases hc with hc | hc | rfl | hc | hc | rfl
    · exact .inl (isFiller_of_mem_text hbase hc)
    · exact .inl (isFiller_of_mem_blanks hbefore hc)
    · exact .inr (PercentForm.mark_of_sign? hsign ▸ List.mem_singleton_self _)
    · exact .inl (isFiller_of_mem_blanks hafter hc)
    · exact .inl (isFiller_of_mem_text hpercent hc)
    · exact .inl isFiller_percent

theorem filter_fillers {text : List Char} (h : ∀ c ∈ text, IsFiller c) : text.filter isMark = [] :=
  List.filter_eq_nil_iff.mpr fun c hc => by simp [isMark_of_isFiller (h c hc)]

/-- Nothing is left of a percentage without its fillers but its word or its sign. -/
theorem Spells.filter_eq {text : List Char} {q : Percentage} (h : Spells text q) :
    text.filter isMark = q.form.mark := by
  have hnumber {l : Literal} (hl : l.IsPlain) : l.text.filter isMark = [] :=
    filter_fillers fun _ => isFiller_of_mem_text hl
  have hblanks {blanks : List Char} (h : AreBlank blanks) : blanks.filter isMark = [] :=
    filter_fillers fun _ => isFiller_of_mem_blanks h
  have hpercent : isMark '%' = false := isMark_of_isFiller isFiller_percent
  rw [← filter_mark]
  cases h with
  | phrase hword hplain hplain' hbefore _ hafter _ =>
    simp [PercentForm.mark_of_word? hword, hnumber hplain, hnumber hplain', hblanks hbefore,
      hblanks hafter, hpercent]
  | change hsign hplain hplain' hbefore hafter =>
    simp [PercentForm.mark_of_sign? hsign, List.filter_cons, hnumber hplain, hnumber hplain',
      hblanks hbefore, hblanks hafter, hpercent]

/-- No text has the shape of two forms. -/
theorem Spells.form_eq {text : List Char} {q q' : Percentage} (h : Spells text q)
    (h' : Spells text q') : q.form = q'.form :=
  PercentForm.mark_injective (h.filter_eq.symm.trans h'.filter_eq)

/-- No text spells two percentages. -/
theorem Spells.unique {text : List Char} {q q' : Percentage} (h : Spells text q)
    (h' : Spells text q') : q = q' := by
  have hread := readAs?_eq_some_iff.mpr ⟨h, h.form_eq h'⟩
  have hread' := readAs?_eq_some_iff.mpr ⟨h', rfl⟩
  exact Option.some.inj (hread.symm.trans hread')

/-- The forms may be tried in any order, and any number of times. -/
theorem findSome?_readAs?_iff {order : List PercentForm} (hall : ∀ form, form ∈ order)
    {text : List Char} {q : Percentage} :
    order.findSome? (readAs? · text) = some q ↔ Spells text q := by
  constructor
  · intro h
    obtain ⟨form, -, hread⟩ := List.exists_of_findSome?_eq_some h
    exact (readAs?_eq_some_iff.mp hread).1
  · intro h
    have hsome : (order.findSome? (readAs? · text)).isSome = true := by
      rw [List.isSome_findSome?, List.any_eq_true]
      exact ⟨q.form, hall q.form, by rw [readAs?_eq_some_iff.mpr ⟨h, rfl⟩]; rfl⟩
    obtain ⟨q', hq'⟩ := Option.isSome_iff_exists.mp hsome
    obtain ⟨form, -, hread⟩ := List.exists_of_findSome?_eq_some hq'
    rw [hq', h.unique (readAs?_eq_some_iff.mp hread).1]

theorem read?_eq_findSome? (text : List Char) :
    read? text = [PercentForm.share, .increase, .decrease, .off].findSome? (readAs? · text) := by
  simp only [read?, List.findSome?_cons, List.findSome?_nil, readAs?, Option.orElse_eq_orElse,
    Option.orElse_eq_or]
  cases readPhrase? ['o', 'f'] .share text with
  | some q => rfl
  | none =>
    cases readChange? '+' .increase text with
    | some q => rfl
    | none =>
      cases readChange? '-' .decrease text with
      | some q => rfl
      | none => cases readPhrase? ['o', 'f', 'f'] .off text <;> rfl

/-- **What is read as a percentage has one of the shapes**, and whatever has one is read. -/
theorem read?_eq_some_iff {text : List Char} {q : Percentage} :
    read? text = some q ↔ Spells text q := by
  rw [read?_eq_findSome?]
  exact findSome?_readAs?_iff fun form => by cases form <;> simp

theorem spells_of_read? {text : List Char} {q : Percentage} (h : read? text = some q) :
    Spells text q :=
  read?_eq_some_iff.mp h

end Percentage

end SumSheet
