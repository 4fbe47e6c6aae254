/-
SumSheet.Proofs.CommentMarks — where a comment can begin in an expression
that is written for the evaluator.

The notation of scripts has comments, that of the sheet has none. A
comment begins with two signs, a slash and another slash or a star, and
what it holds is passed over. The pieces of an expression are written
one behind the other, so the two signs may come from two pieces.
`pair_written_iff` settles which pairs with a slash in front there are:
those of the expression, and a slash in front of what a power sign is
written as. That one is a comment which nobody wrote
(`recalculateTexts_slashPower`).

In an expression without all three pairs, every sign, word and number
gets its token: the scanner passes over gaps and over nothing else
(`toScript_comments`).

  §1 Numerals — what a number takes off the front of a text.
  §2 Pairs    — of signs, in a text and in what is written for it.
  §3 Tokens   — of a text in which no comment begins.
-/
import SumSheet.Proofs.NamesRead

namespace SumSheet

open Text

namespace Formula

/-! ## §1 Numerals -/

theorem exponentOf_isPrefix (text : List Char) : exponentOf text <+: text := by
  have hrun (rest : List Char) : rest.takeWhile isDigit <+: rest := List.takeWhile_prefix _
  cases text with
  | nil => exact List.prefix_rfl
  | cons letter rest =>
    simp only [exponentOf]
    split
    · cases rest with
      | nil => exact List.nil_prefix
      | cons sign behind =>
        simp only
        split
        · split
          · exact List.nil_prefix
          · simpa [List.cons_prefix_cons] using hrun behind
        · split
          · exact List.nil_prefix
          · simpa [List.cons_prefix_cons] using hrun (sign :: behind)
    · exact List.nil_prefix

/-- A number is its parts in their order, with or without a point. -/
theorem numeral?_takes {text behind : List Char} {n : Numeral}
    (h : numeral? text = some (n, behind)) :
    ∃ point, (point = [] ∨ point = ['.'])
      ∧ text = n.whole ++ (point ++ (n.fraction ++ (n.exponent ++ behind))) := by
  have hwhole := List.takeWhile_append_dropWhile (p := isDigit) (l := text)
  simp only [numeral?] at h
  generalize text.takeWhile isDigit = whole at h hwhole
  generalize text.dropWhile isDigit = rest at h hwhole
  split at h
  · rename_i behind'
    have hplaces := List.takeWhile_append_dropWhile (p := isDigit) (l := behind')
    simp only at h
    split at h
    · cases h
    · cases h
      have hexponent := List.prefix_iff_eq_append.mp (exponentOf_isPrefix (behind'.dropWhile isDigit))
      exact ⟨['.'], .inr rfl, by rw [hexponent, hplaces, ← hwhole]; rfl⟩
  · simp only at h
    split at h
    · cases h
    · cases h
      have hexponent := List.prefix_iff_eq_append.mp (exponentOf_isPrefix rest)
      exact ⟨[], .inl rfl, by rw [hexponent, ← hwhole]; rfl⟩

/-! ## §2 Pairs -/

/-- What a sign is written as, or its first character. -/
def asWritten (c : Char) : Char :=
  if c = '^' then '*' else c

theorem asWritten_of_ne {c : Char} (h : c ≠ '^') : asWritten c = c :=
  if_neg h

theorem isOther_slash : IsOther '/' :=
  ⟨by decide, by decide, by decide, by decide⟩

theorem isOther_star : IsOther '*' :=
  ⟨by decide, by decide, by decide, by decide⟩

theorem ne_of_isDigit {c d : Char} (hc : isDigit c = true) (hd : isDigit d = false) : c ≠ d := by
  rintro rfl
  rw [hc] at hd
  cases hd

section

variable {c : Char} {rest behind : List Char} {p : Piece}

/-- A piece is written with a sign in front if it is that sign, or the one that is written so. -/
theorem head_script_iff {x : Char} (hx : IsOther x) (h : nextPiece c rest = (p, behind))
    (tail : List Char) : (p.script ++ tail).head? = some x ↔ asWritten c = x := by
  obtain ⟨hstart, hdigit, hpoint, _⟩ := hx
  unfold nextPiece at h
  split at h
  · rename_i hc
    cases h
    refine iff_of_false ?_ ?_
    · simp only [Piece.script]
      split
      · simpa using ne_of_isNameStart hc hstart
      · simpa [variableName, variableMark] using ne_of_isNameStart (by decide) hstart
    · rw [asWritten_of_ne (ne_of_isNameStart hc (by decide))]
      exact ne_of_isNameStart hc hstart
  · split at h
    · rename_i n behind' hnumeral
      cases h
      obtain ⟨hn, _, ⟨digits, hwhole⟩ | ⟨hwhole, rfl, _⟩⟩ := numeral?_eq_some hnumeral
      · have hc : isDigit c = true := hn.whole c (by simp [hwhole])
        rw [asWritten_of_ne (ne_of_isDigit hc (by decide))]
        simp [Piece.script, Numeral.script, orZero, hwhole]
      · refine iff_of_false ?_ hpoint.symm
        simpa [Piece.script, Numeral.script, orZero, hwhole] using
          ne_of_isDigit (by decide) hdigit
    · split at h
      · rename_i hpower
        cases h
        obtain rfl : c = '^' := by simpa using hpower
        simp [Piece.script, asWritten]
      · rename_i hpower
        cases h
        rw [asWritten_of_ne (by simpa using hpower)]
        simp [Piece.script]

theorem IsExponent.not_mem_slash {exponent : List Char} (h : IsExponent exponent) :
    '/' ∉ exponent := by
  have hdigits {digits : List Char} (h : ∀ c ∈ digits, isDigit c = true) : '/' ∉ digits :=
    fun hmem => absurd (h _ hmem) (by decide)
  cases h with
  | none => exact List.not_mem_nil
  | plain hletter hall hsome =>
    rcases hletter with rfl | rfl <;> simpa using hdigits hall
  | signed hletter hsign hall =>
    rcases hletter with rfl | rfl <;> rcases hsign with rfl | rfl <;> simpa using hdigits hall

/-- A piece that is no slash holds none, neither as it stands nor as it is written. -/
theorem not_mem_slash_of_nextPiece (hc : c ≠ '/') (h : nextPiece c rest = (p, behind)) :
    ∃ used, c :: rest = used ++ behind ∧ '/' ∉ used ∧ '/' ∉ p.script := by
  unfold nextPiece at h
  split at h
  · rename_i hstart
    cases h
    have hname : '/' ∉ c :: rest.takeWhile isNamePart := by
      intro hmem
      rcases List.mem_cons.mp hmem with rfl | hmem
      · exact hc rfl
      · exact absurd (forall_takeWhile _ hmem) (by decide)
    refine ⟨c :: rest.takeWhile isNamePart, ?_, hname, ?_⟩
    · rw [List.cons_append, List.takeWhile_append_dropWhile]
    · simp only [Piece.script]
      split
      · exact hname
      · simpa [variableName, variableMark] using hname
  · split at h
    · rename_i n behind' hnumeral
      cases h
      have hn := (numeral?_eq_some hnumeral).1
      obtain ⟨point, hpoint, htext⟩ := numeral?_takes hnumeral
      have hdigits {digits : List Char} (hall : ∀ d ∈ digits, isDigit d = true) : '/' ∉ digits :=
        fun hmem => absurd (hall _ hmem) (by decide)
      have hzero {digits : List Char} (hall : ∀ d ∈ digits, isDigit d = true) :
          '/' ∉ orZero digits := hdigits (Script.forall_mem_orZero rfl hall)
      refine ⟨n.whole ++ (point ++ (n.fraction ++ n.exponent)), ?_, ?_, ?_⟩
      · simpa using htext
      · have hpoint : '/' ∉ point := by
          rcases hpoint with rfl | rfl <;> decide
        simp [hdigits hn.whole, hpoint, hdigits hn.fraction, hn.exponent.not_mem_slash]
      · simp [Piece.script, Numeral.script, hzero hn.whole, hzero hn.fraction,
          hn.exponent.not_mem_slash]
    · split at h <;> cases h
      · exact ⟨[c], rfl, by simpa using hc.symm, by decide⟩
      · exact ⟨[c], rfl, by simpa using hc.symm, by simpa [Piece.script] using hc.symm⟩

end

theorem head_written_iff {x : Char} (hx : IsOther x) {text : List Char} {ps : List Piece}
    (h : IsCutInto text ps) :
    (written ps).head? = some x ↔ ∃ c, text.head? = some c ∧ asWritten c = x := by
  cases h with
  | nil => simp [written]
  | cons hpiece _ =>
    rw [written, List.flatMap_cons, head_script_iff hx hpiece]
    simp

section

variable {a b : Char} {text : List Char}

theorem pair_cons_iff : [a, b] <:+: a :: text ↔ text.head? = some b ∨ [a, b] <:+: text := by
  rw [List.infix_cons_iff, List.cons_prefix_cons, List.singleton_prefix_iff_head?_eq_some]
  simp

/-- A pair begins with its first sign. -/
theorem pair_append_iff {used : List Char} (h : a ∉ used) :
    [a, b] <:+: used ++ text ↔ [a, b] <:+: text := by
  induction used with
  | nil => rfl
  | cons c used ih =>
    rw [List.mem_cons, not_or] at h
    rw [List.cons_append, List.infix_cons_iff, List.cons_prefix_cons, ih h.2]
    simp [h.1]

end

/-- A slash and another sign stand side by side in what is written if they did so in the text, the
other sign as it was there. -/
theorem pair_written_iff {x : Char} (hx : IsOther x) {text : List Char} {ps : List Piece}
    (h : IsCutInto text ps) :
    ['/', x] <:+: written ps ↔ ∃ c, ['/', c] <:+: text ∧ asWritten c = x := by
  induction h with
  | nil => simp [written]
  | @cons c rest behind p others hpiece h ih =>
    rw [written, List.flatMap_cons, ← written]
    by_cases hc : c = '/'
    · subst hc
      cases hpiece.symm.trans (isOther_slash.nextPiece_eq rest)
      simp only [Piece.script, List.singleton_append, pair_cons_iff, head_written_iff hx h, ih,
        or_and_right, exists_or]
    · obtain ⟨used, htext, hused, hscript⟩ := not_mem_slash_of_nextPiece hc hpiece
      simp only [htext, pair_append_iff hused, pair_append_iff hscript, ih]

/-- What a pair of signs was before it was written. -/
theorem asWritten_eq_slash_iff {c : Char} : asWritten c = '/' ↔ c = '/' := by
  unfold asWritten
  split
  · rename_i hc
    simp [hc]
  · rfl

theorem asWritten_eq_star_iff {c : Char} : asWritten c = '*' ↔ c = '*' ∨ c = '^' := by
  unfold asWritten
  split
  · rename_i hc
    simp [hc]
  · rename_i hc
    simp [hc]

theorem lineComment_toScript_iff (text : List Char) :
    ['/', '/'] <:+: toScript text ↔ ['/', '/'] <:+: text := by
  have hpair : ['/', '/'] <:+: toScript text ↔ _ :=
    pair_written_iff isOther_slash (isCutInto_pieces text)
  simpa [asWritten_eq_slash_iff] using hpair

theorem blockComment_toScript_iff (text : List Char) :
    ['/', '*'] <:+: toScript text ↔ ['/', '*'] <:+: text ∨ ['/', '^'] <:+: text := by
  have hpair : ['/', '*'] <:+: toScript text ↔ _ :=
    pair_written_iff isOther_star (isCutInto_pieces text)
  simpa [asWritten_eq_star_iff, and_or_left, exists_or] using hpair

end Formula

/-! ## §3 Tokens -/

namespace Script

/-- The text is cut into these tokens, and nothing but gaps is passed over. -/
inductive CutThroughout : List Char → List Token → Prop
  | nil : CutThroughout [] []
  | gap {c : Char} {rest : List Char} {tokens : List Token} (hc : isGap c = true)
      (h : CutThroughout rest tokens) : CutThroughout (c :: rest) tokens
  | token {c : Char} {text rest : List Char} {t : Token} {tokens : List Token}
      (hgap : isGap c = false) (htoken : lexToken text.length c text = .ok (t, rest))
      (h : CutThroughout rest tokens) : CutThroughout (c :: text) (t :: tokens)

/-- What a token leaves is the end of the text. -/
theorem lexToken_suffix {limit : Nat} {c : Char} {text rest : List Char} {t : Token}
    (h : lexToken limit c text = .ok (t, rest)) : rest <:+ c :: text := by
  rcases lexToken_takes h with ⟨_, hsuffix⟩ | ⟨_, _, rfl⟩ | ⟨_, _, used, last, hused, _⟩
  · exact hsuffix.trans (List.suffix_cons _ _)
  · exact List.dropWhile_suffix _
  · exact ⟨used ++ [last], by simp [hused]⟩

/-- No comment begins in the text. -/
structure HasNoComment (text : List Char) : Prop where
  line : ¬ ['/', '/'] <:+: text
  block : ¬ ['/', '*'] <:+: text

instance (text : List Char) : Decidable (HasNoComment text) :=
  decidable_of_iff (¬ ['/', '/'] <:+: text ∧ ¬ ['/', '*'] <:+: text)
    ⟨fun h => ⟨h.1, h.2⟩, fun h => ⟨h.line, h.block⟩⟩

namespace HasNoComment

variable {text rest : List Char} {tokens : List Token}

theorem of_suffix (h : HasNoComment text) (hrest : rest <:+ text) : HasNoComment rest :=
  ⟨fun hpair => h.line (hpair.trans hrest.isInfix),
    fun hpair => h.block (hpair.trans hrest.isInfix)⟩

theorem not_opensComment {c : Char} (h : HasNoComment (c :: text)) : ¬ OpensComment c text := by
  rintro ⟨rfl, hhead | hhead⟩
  · exact h.line (Formula.pair_cons_iff.mpr (.inl hhead))
  · exact h.block (Formula.pair_cons_iff.mpr (.inl hhead))

theorem cutThroughout (h : HasNoComment text) (hcut : Cut text tokens) :
    CutThroughout text tokens := by
  induction hcut with
  | nil => exact .nil
  | gap hc _ ih => exact .gap hc (ih (h.of_suffix (List.suffix_cons _ _)))
  | lineComment _ _ => exact absurd ⟨rfl, .inl rfl⟩ h.not_opensComment
  | blockComment _ _ => exact absurd ⟨rfl, .inr rfl⟩ h.not_opensComment
  | token hgap _ htoken _ ih => exact .token hgap htoken (ih (h.of_suffix (lexToken_suffix htoken)))

theorem cut (h : HasNoComment text) (hcut : CutThroughout text tokens) : Cut text tokens := by
  induction hcut with
  | nil => exact .nil
  | gap hc _ ih => exact .gap hc (ih (h.of_suffix (List.suffix_cons _ _)))
  | token hgap htoken _ ih =>
    exact .token hgap h.not_opensComment htoken (ih (h.of_suffix (lexToken_suffix htoken)))

/-- Where no comment begins, the tokens are those of the whole text. -/
theorem tokenize_iff (h : HasNoComment text) :
    tokenize text = .ok tokens ↔ CutThroughout text tokens :=
  Script.tokenize_iff.trans ⟨h.cutThroughout, h.cut⟩

end HasNoComment

/-- An expression leaves no tokens. -/
theorem rest_of_formula {tokens rest : List Token} {e : Expr}
    (h : formula tokens = .ok (e, rest)) : rest = [] := by
  obtain ⟨e', rest', _, h⟩ := Parser.bind_eq_ok h
  obtain ⟨next, tokens', hpeek, h⟩ := Parser.bind_eq_ok h
  cases hpeek
  cases rest' with
  | nil => cases h; rfl
  | cons t others => cases h

/-- The expression of a text without comments is that of all its tokens. -/
theorem parseFormula_iff {text : List Char} (h : HasNoComment text) {e : Expr} :
    parseFormula text = .ok e
      ↔ ∃ tokens, CutThroughout text tokens ∧ formula tokens = .ok (e, []) := by
  constructor
  · intro hparse
    obtain ⟨tokens, rest, htokens, hrun⟩ := Parser.tokens_of_parseText hparse
    obtain rfl := rest_of_formula hrun
    exact ⟨tokens, h.tokenize_iff.mp htokens, hrun⟩
  · rintro ⟨tokens, hcut, hrun⟩
    simp only [parseFormula, parseText, h.tokenize_iff.mpr hcut, StateT.run, hrun]
    rfl

end Script

open Formula Script

/-- **A comment begins in what is written for an expression where it begins in the expression, or
where a power sign stands behind a slash.** So an expression with neither has no comment when it is
evaluated, and its value is that of all tokens of the text that was written. -/
theorem toScript_comments (text : List Char) :
    (['/', '/'] <:+: toScript text ↔ ['/', '/'] <:+: text)
      ∧ (['/', '*'] <:+: toScript text ↔ ['/', '*'] <:+: text ∨ ['/', '^'] <:+: text)
      ∧ (HasNoComment text → ¬ ['/', '^'] <:+: text →
        HasNoComment (toScript text) ∧ ∀ e, parseFormula (toScript text) = .ok e
          ↔ ∃ tokens, CutThroughout (toScript text) tokens ∧ formula tokens = .ok (e, [])) := by
  have hline := lineComment_toScript_iff text
  have hblock := blockComment_toScript_iff text
  refine ⟨hline, hblock, fun h hpower => ?_⟩
  have hnone : HasNoComment (toScript text) :=
    ⟨fun hpair => h.line (hline.mp hpair), fun hpair => (hblock.mp hpair).elim h.block hpower⟩
  exact ⟨hnone, fun e => parseFormula_iff hnone⟩

/-- Slashes in front of a bare fraction, a blank and a name, and a power sign elsewhere. -/
theorem toScript_comments_fraction :
    let text := "6/.5^x/ (2)/e(1)".toList
    HasNoComment text ∧ ¬ ['/', '^'] <:+: text
      ∧ toScript text = "6.0/0.5**v_x/ (2.0)/e(1.0)".toList ∧ HasNoComment (toScript text) := by
  intro text
  have hnone : HasNoComment text := by decide
  have hpower : ¬ ['/', '^'] <:+: text := by decide
  exact ⟨hnone, hpower, by decide +kernel, ((toScript_comments text).2.2 hnone hpower).1⟩

/-- A slash and a power sign make a comment of what stands behind them: the expression has no
value, and the line shows the one of what stands in front. -/
theorem recalculateTexts_slashPower :
    let text := "6/^2".toList
    HasNoComment text ∧ toScript text = "6.0/**2.0".toList ∧ ¬ HasNoComment (toScript text)
      ∧ recalculateTexts Program.empty.evaluate ["6/^2"] = ["6"] := by
  decide +kernel

end SumSheet
