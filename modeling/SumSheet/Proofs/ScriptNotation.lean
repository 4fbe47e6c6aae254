/-
SumSheet.Proofs.ScriptNotation — arithmetic put into the notation of
scripts.

`Formula.toScript` cuts a text into pieces and writes each of them anew.
Here every piece of a tree is shown to be cut where it ends, so that the
tree on the sheet becomes the same tree in a script.

  §1 Characters — digits, and what may stand behind a number.
  §2 Numerals   — a literal is cut off whole.
  §3 Pieces     — one lemma for each kind of piece.
  §4 Trees      — `toScript_text`.
-/
import Mathlib
import SumSheet.Proofs.Arithmetic

namespace SumSheet

open Text

/-! ## §1 Characters -/

theorem isDigit_of_isAsciiDigit {c : Char} (h : isAsciiDigit c = true) : isDigit c = true := by
  rw [isDigit, inRanges_iff]
  refine ⟨(0x30, 0x39), by simp [digitRanges], ?_⟩
  simpa [isAsciiDigit, Char.le_def, UInt32.le_iff_toNat_le] using h

/-- What may stand behind a number: nothing, or a character that does not go on with it. -/
def EndsNumber (rest : List Char) : Prop :=
  ∀ c ∈ rest.head?, isDigit c = false ∧ isNameStart c = false ∧ c ≠ '.'

/-- What stands behind a number or a name in a tree: nothing, or a separating character. -/
def IsSeparated (rest : List Char) : Prop :=
  ∀ c ∈ rest.head?, c = ' ' ∨ c = ')' ∨ c = ','

theorem IsSeparated.head {rest : List Char} (h : IsSeparated rest) {p : Char → Bool}
    (hspace : p ' ' = false) (hclose : p ')' = false) (hcomma : p ',' = false) :
    ∀ c ∈ rest.head?, p c = false := by
  intro c hc
  rcases h c hc with rfl | rfl | rfl
  · exact hspace
  · exact hclose
  · exact hcomma

theorem IsSeparated.endsNumber {rest : List Char} (h : IsSeparated rest) : EndsNumber rest := by
  intro c hc
  rcases h c hc with rfl | rfl | rfl <;> decide

/-! ## §2 Numerals -/

namespace Formula

theorem ne_exponentLetter {c : Char} (h : isNameStart c = false) :
    (c == 'e' || c == 'E') = false := by
  rw [Bool.or_eq_false_iff, beq_eq_false_iff_ne, beq_eq_false_iff_ne]
  constructor
  · rintro rfl
    exact absurd h (by decide)
  · rintro rfl
    exact absurd h (by decide)

theorem exponentOf_ends {rest : List Char} (h : EndsNumber rest) : exponentOf rest = [] := by
  cases rest with
  | nil => rfl
  | cons c rest =>
    simp only [exponentOf, ne_exponentLetter (h c rfl).2.1, Bool.false_eq_true, if_false]

theorem exponentOf_text (x : LiteralExponent) {rest : List Char} (h : EndsNumber rest) :
    exponentOf (x.text ++ rest) = x.text := by
  have hdigits : ∀ c ∈ x.digits, isDigit c = true :=
    fun c hc => isDigit_of_isAsciiDigit (x.isDigit_digits c hc)
  have hrun : (x.digits ++ rest).takeWhile isDigit = x.digits :=
    takeWhile_run hdigits fun c hc => (h c hc).1
  have hletter : (x.letter == 'e' || x.letter == 'E') = true := by simpa using x.letter_eq
  have hsome : x.digits.isEmpty = false := by simpa using x.digits_ne_nil
  cases hsign : x.sign with
  | some s =>
    have hs : (s == '+' || s == '-') = true := by simpa using x.sign_eq s (by simp [hsign])
    simp only [LiteralExponent.text, hsign, Option.toList_some, List.cons_append, List.nil_append,
      exponentOf, hletter, hs, if_true, hrun, hsome, Bool.false_eq_true, if_false]
  | none =>
    obtain ⟨d, ds, hd⟩ := List.exists_cons_of_ne_nil x.digits_ne_nil
    have hplain : (d == '+' || d == '-') = false := by
      have hdigit := hdigits d (by simp [hd])
      rw [Bool.or_eq_false_iff, beq_eq_false_iff_ne, beq_eq_false_iff_ne]
      constructor
      · rintro rfl
        exact absurd hdigit (by decide)
      · rintro rfl
        exact absurd hdigit (by decide)
    rw [hd, List.cons_append] at hrun
    rw [hd] at hsome
    simp only [LiteralExponent.text, hsign, Option.toList_none, List.cons_append, List.nil_append,
      exponentOf, hletter, hd, hplain, if_true, hrun, hsome, Bool.false_eq_true, if_false]

/-- An exponent, or what ends a number, does not go on with digits. -/
theorem head_exponentText (l : Literal) {rest : List Char} {p : Char → Bool}
    (h : ∀ c ∈ rest.head?, p c = false) (he : p 'e' = false) (hE : p 'E' = false) :
    ∀ c ∈ (l.exponentText ++ rest).head?, p c = false := by
  intro c hc
  rw [Literal.exponentText] at hc
  cases hx : l.exponent with
  | none =>
    rw [hx] at hc
    exact h c hc
  | some x =>
    simp only [hx, LiteralExponent.text, List.cons_append, List.head?_cons, Option.mem_def,
      Option.some.injEq] at hc
    subst hc
    rcases x.letter_eq with hl | hl
    · rw [hl]; exact he
    · rw [hl]; exact hE

theorem exponentOf_exponentText (l : Literal) {rest : List Char} (h : EndsNumber rest) :
    exponentOf (l.exponentText ++ rest) = l.exponentText := by
  rw [Literal.exponentText]
  cases l.exponent with
  | none => exact exponentOf_ends h
  | some x => exact exponentOf_text x h

theorem numeral?_text (l : Literal) {rest : List Char} (h : EndsNumber rest) :
    numeral? (l.text ++ rest) = some (⟨l.whole, l.places, l.exponentText⟩, rest) := by
  have hwhole : ∀ c ∈ l.whole, isDigit c = true :=
    fun c hc => isDigit_of_isAsciiDigit (l.isDigit_whole c hc)
  have hplaces : ∀ c ∈ l.places, isDigit c = true :=
    fun c hc => isDigit_of_isAsciiDigit (l.isDigit_fraction c hc)
  have hbehind := head_exponentText l (fun c hc => (h c hc).1) (by decide) (by decide)
  have hexponent := exponentOf_exponentText l h
  have hdigit := l.some_digit
  rw [Literal.text, List.append_assoc, List.append_assoc]
  cases hfraction : l.fraction with
  | none =>
    have hnone : l.places = [] := by rw [Literal.places, hfraction, Option.getD_none]
    have hsome : l.whole.isEmpty = false := by
      rw [hfraction] at hdigit
      simpa using hdigit
    have hpoint := head_exponentText l (p := (· == '.'))
      (fun c hc => beq_eq_false_iff_ne.mpr (h c hc).2.2) (by decide) (by decide)
    simp only [Option.map_none, Option.getD_none, List.nil_append, numeral?,
      takeWhile_run hwhole hbehind, dropWhile_run hwhole hbehind, hnone, hsome]
    split
    · rename_i hpointed
      exact absurd (hpoint '.' (by rw [hpointed]; rfl)) (by decide)
    · simp only [hexponent, List.drop_left, Bool.false_and, Bool.false_eq_true, if_false]
  | some ds =>
    have hds : l.places = ds := by rw [Literal.places, hfraction, Option.getD_some]
    rw [hds] at hplaces
    have hpoint : ∀ c ∈ ('.' :: (ds ++ (l.exponentText ++ rest))).head?, isDigit c = false := by
      rintro c ⟨rfl⟩
      decide
    simp only [Option.map_some, Option.getD_some, List.cons_append, numeral?,
      takeWhile_run hwhole hpoint, dropWhile_run hwhole hpoint,
      takeWhile_run hplaces hbehind, dropWhile_run hplaces hbehind, hexponent, hds,
      List.drop_left]
    rw [if_neg]
    rw [hfraction, Option.getD_some] at hdigit
    simpa [or_iff_not_imp_left] using hdigit

/-! ## §3 Pieces -/

/-- The text is put into this script, whatever the limit on its pieces, as long as it is not below
the length of the text. -/
def Rewrites (text script : List Char) : Prop :=
  ∀ limit, text.length ≤ limit → (piecesUpTo limit text).flatMap Piece.script = script

theorem rewrites_nil : Rewrites [] [] := by
  intro limit hlimit
  cases limit <;> rfl

/-- One piece is cut off and written. -/
theorem Rewrites.piece {c : Char} {rest behind script : List Char} {p : Piece}
    (h : Rewrites behind script) (hpiece : nextPiece c rest = (p, behind))
    (hlength : behind.length ≤ rest.length) : Rewrites (c :: rest) (p.script ++ script) := by
  intro limit hlimit
  obtain ⟨limit, rfl⟩ : ∃ m, limit = m + 1 := ⟨limit - 1, by simp at hlimit; omega⟩
  rw [piecesUpTo, hpiece, List.flatMap_cons, h limit (by simp at hlimit; omega)]

/-- The character is a piece of its own, and the same in a script. -/
def IsOther (c : Char) : Prop :=
  isNameStart c = false ∧ isDigit c = false ∧ c ≠ '.' ∧ c ≠ '^'

theorem numeral?_other {c : Char} (hdigit : isDigit c = false) (hpoint : c ≠ '.')
    (rest : List Char) : numeral? (c :: rest) = none := by
  simp only [numeral?, List.takeWhile_cons, hdigit, List.dropWhile_cons, Bool.false_eq_true,
    if_false]
  split
  · rename_i heq
    exact absurd (List.cons.inj heq).1 hpoint
  · rfl

theorem IsOther.nextPiece_eq {c : Char} (h : IsOther c) (rest : List Char) :
    nextPiece c rest = (.other c, rest) := by
  obtain ⟨hstart, hdigit, hpoint, hpower⟩ := h
  simp only [nextPiece, hstart, numeral?_other hdigit hpoint, beq_eq_false_iff_ne.mpr hpower,
    Bool.false_eq_true, if_false]

theorem Rewrites.other {c : Char} (hc : IsOther c) {rest script : List Char}
    (h : Rewrites rest script) : Rewrites (c :: rest) (c :: script) :=
  h.piece (p := .other c) (hc.nextPiece_eq rest) (le_refl _)

theorem Rewrites.power {rest script : List Char} (h : Rewrites rest script) :
    Rewrites ('^' :: rest) ('*' :: '*' :: script) := by
  refine h.piece (p := .power) ?_ (le_refl _)
  have hstart : isNameStart '^' = false := by decide
  simp only [nextPiece, hstart, numeral?_other (c := '^') (by decide) (by decide),
    Bool.false_eq_true, if_false, beq_self_eq_true, if_true]

theorem isNameStart_of_isAsciiDigit {c : Char} (h : isAsciiDigit c = true) :
    isNameStart c = false := by
  rw [isNameStart, Bool.or_eq_false_iff, beq_eq_false_iff_ne]
  constructor
  · simp only [isAsciiDigit, isAsciiLetter, Bool.and_eq_true, Bool.or_eq_false_iff,
      Bool.and_eq_false_iff, decide_eq_true_eq, decide_eq_false_iff_not, Char.le_def,
      UInt32.le_iff_toNat_le, Char.reduceVal, UInt32.reduceToNat] at h ⊢
    omega
  · rintro rfl
    exact absurd h (by decide)

/-- A literal begins with a digit or with the point. -/
theorem head_text (l : Literal) :
    ∃ c rest, l.text = c :: rest ∧ (isAsciiDigit c = true ∨ c = '.') := by
  cases hwhole : l.whole with
  | cons c whole =>
    refine ⟨c, _, by rw [Literal.text, hwhole, List.cons_append], .inl ?_⟩
    exact l.isDigit_whole c (by simp [hwhole])
  | nil =>
    obtain ⟨ds, hds⟩ : ∃ ds, l.fraction = some ds := by
      cases hfraction : l.fraction with
      | some ds => exact ⟨ds, rfl⟩
      | none =>
        have hdigit := l.some_digit
        rw [hwhole, hfraction] at hdigit
        simp at hdigit
    exact ⟨'.', _, by simp [Literal.text, hwhole, hds]; rfl, .inr rfl⟩

theorem Rewrites.number (l : Literal) {rest script : List Char} (hrest : EndsNumber rest)
    (h : Rewrites rest script) : Rewrites (l.text ++ rest) (l.script ++ script) := by
  obtain ⟨c, cs, htext, hc⟩ := head_text l
  have hstart : isNameStart c = false := by
    rcases hc with hdigit | rfl
    · exact isNameStart_of_isAsciiDigit hdigit
    · decide
  have hnumeral := numeral?_text l hrest
  rw [htext, List.cons_append] at hnumeral ⊢
  refine h.piece (p := .number ⟨l.whole, l.places, l.exponentText⟩) ?_ (by simp)
  simp only [nextPiece, hstart, Bool.false_eq_true, if_false, hnumeral]

theorem Rewrites.name {name rest script : List Char} (hname : IsIdentifier name)
    (hrest : ∀ c ∈ rest.head?, isNamePart c = false) (h : Rewrites rest script) :
    Rewrites (name ++ rest) ((Piece.name name (opensCall rest)).script ++ script) := by
  obtain ⟨hstart, hparts⟩ := hname
  cases name with
  | nil => exact absurd hstart (by decide)
  | cons c cs =>
    have hrun : ∀ d ∈ cs, isNamePart d = true := fun d hd => (hparts d (by simp [hd])).1
    rw [List.cons_append]
    refine h.piece ?_ (by simp)
    simp only [List.head?_cons, Option.map_some, Option.getD_some] at hstart
    simp only [nextPiece, hstart, if_true, takeWhile_run hrun hrest,
      dropWhile_run hrun hrest]

/-! ## §4 Trees -/

theorem isIdentifier_builtin {f : String} (h : IsBuiltin f) : IsIdentifier f.toList := by
  have hall : ∀ b ∈ builtins, (b.name.toList.head?.map isNameStart).getD false = true
      ∧ ∀ c ∈ b.name.toList, isNamePart c ∧ isLowered c := by
    intro b hb
    fin_cases hb <;> simp <;> decide
  obtain ⟨b, hb, rfl⟩ := h
  exact hall b hb

theorem isOther_sign {op : ArithmeticOp} (h : op ≠ .power) : IsOther op.sign := by
  cases op with
  | power => exact absurd rfl h
  | _ => exact ⟨by decide, by decide, by decide, by decide⟩

theorem Rewrites.operator (op : ArithmeticOp) {rest script : List Char} (h : Rewrites rest script) :
    Rewrites (sheetAlphabet.operator op ++ rest) (scriptAlphabet.operator op ++ script) := by
  have hspace : IsOther ' ' := ⟨by decide, by decide, by decide, by decide⟩
  by_cases hop : op = .power
  · subst hop
    exact (h.other hspace).power.other hspace
  · have hscript : op.script = [op.sign] := by
      cases op <;> first | rfl | exact absurd rfl hop
    simp only [scriptAlphabet, hscript]
    exact ((h.other hspace).other (isOther_sign hop)).other hspace

/-- The pieces of a tree on a sheet become the pieces of the tree in a script. -/
theorem reads_script :
    Reads sheetAlphabet scriptAlphabet Rewrites
      (fun rest => IsSeparated rest ∧ opensCall rest = false) (fun _ => True) where
  number l hends h := h.number l hends.1.endsNumber
  name x hends h := by
    have hname := h.name x.2 (hends.1.head (by decide) (by decide) (by decide))
    rw [hends.2] at hname
    exact hname
  call hf _ h := by
    simp only [sheetAlphabet, scriptAlphabet, List.append_assoc]
    exact (h.other ⟨by decide, by decide, by decide, by decide⟩).name (isIdentifier_builtin hf)
      (by rintro c ⟨rfl⟩; decide)
  minus _ h := h.other ⟨by decide, by decide, by decide, by decide⟩
  operator op h := h.operator op
  openGroup _ h := h.other ⟨by decide, by decide, by decide, by decide⟩
  close h := h.other ⟨by decide, by decide, by decide, by decide⟩
  comma h := (h.other ⟨by decide, by decide, by decide, by decide⟩).other
    ⟨by decide, by decide, by decide, by decide⟩
  ends_operator op rest := by
    refine ⟨by rintro c ⟨rfl⟩; exact .inl rfl, ?_⟩
    cases op <;> rfl
  ends_close rest := ⟨by rintro c ⟨rfl⟩; exact .inr (.inl rfl), rfl⟩
  ends_comma rest := ⟨by rintro c ⟨rfl⟩; exact .inr (.inr rfl), rfl⟩
  starts_number _ _ := trivial
  starts_name _ _ := trivial
  starts_call _ _ := trivial
  starts_openGroup _ := trivial

/-- A tree on a sheet is put into the same tree in a script. -/
theorem toScript_text (t : Arithmetic) : toScript t.text = t.write scriptAlphabet := by
  have hrewrites := reads_script.tree t [] [] ⟨by simp [IsSeparated], rfl⟩ rewrites_nil
  rw [List.append_nil, List.append_nil] at hrewrites
  exact hrewrites _ (le_refl _)

end Formula

end SumSheet
