/-
SumSheet.Proofs.NamesRead — the words of an expression in the notation
of scripts are the names that occur in it.

An expression is cut into pieces and each piece is written; the text
that this makes is then cut into tokens, by other rules. A token need
not be one piece: what follows a name may be written in such a way that
it joins the name. `word_spelled` says in which ways a word of the text
comes about: from a name that occurs, or it is followed by a point and a
digit, so that it cannot be read. The letter of an exponent never begins
a word, as a digit stands in front of it.

With that, the variables that an expression reads are known from its
names (`uses_of_parseFormula`).

  §1 Characters  — blanks, digits and letters exclude each other.
  §2 Pieces      — how a text is cut into them.
  §3 Words       — of the text that the pieces make.
  §4 Behind them — a parenthesis, a mark in front of one, or a point and
                   a digit.
  §5 Tokens      — the words among them.
  §6 Expressions — what they use.
-/
import SumSheet.Proofs.GrammarWalk
import SumSheet.Proofs.Redisplay
import SumSheet.Proofs.ScriptTokens
import SumSheet.Proofs.Tokenizing

namespace SumSheet

open Text

/-! ## §1 Characters -/

/-- A letter or an underscore is no digit of any script. -/
theorem isDigit_of_isNameStart {c : Char} (h : isNameStart c = true) : isDigit c = false := by
  have hranges : ∀ r ∈ digitRanges, r.2 ≤ 0x39 ∨ 0x660 ≤ r.1 := by decide
  have hbounds : 0x41 ≤ c.toNat ∧ c.toNat ≤ 0x7A := by
    simp only [isNameStart, isAsciiLetter, Bool.or_eq_true, Bool.and_eq_true, decide_eq_true_eq,
      beq_iff_eq, Char.le_def, UInt32.le_iff_toNat_le] at h
    rcases h with (h | h) | rfl
    · exact ⟨le_trans (by decide) h.1, h.2⟩
    · exact ⟨h.1, le_trans h.2 (by decide)⟩
    · decide
  by_contra hdigit
  rw [Bool.not_eq_false, isDigit] at hdigit
  obtain ⟨r, hr, hlow, hhigh⟩ := (inRanges_iff _ _).mp hdigit
  have := hranges r hr
  omega

theorem isDigit_of_isBlank {c : Char} (h : isBlank c = true) : isDigit c = false := by
  have hranges : ∀ b ∈ blankRanges, ∀ d ∈ digitRanges, b.2 < d.1 ∨ d.2 < b.1 := by decide +kernel
  by_contra hdigit
  rw [Bool.not_eq_false, isDigit] at hdigit
  obtain ⟨b, hb, hb_low, hb_high⟩ := (inRanges_iff _ _).mp h
  obtain ⟨d, hd, hd_low, hd_high⟩ := (inRanges_iff _ _).mp hdigit
  have := hranges b hb d hd
  omega

theorem isNamePart_of_isNameStart {c : Char} (h : isNameStart c = true) : isNamePart c = true := by
  rw [isNamePart, h, Bool.true_or]

theorem isNameStart_of_isDigit {c : Char} (h : isDigit c = true) : isNameStart c = false := by
  by_contra hstart
  rw [Bool.not_eq_false] at hstart
  rw [isDigit_of_isNameStart hstart] at h
  cases h

namespace Formula

/-- A blank is a piece of its own, and stays as it is. -/
theorem isOther_of_isBlank {c : Char} (h : isBlank c = true) : IsOther c := by
  have hpart := isNamePart_of_isBlank h
  rw [isNamePart, Bool.or_eq_false_iff] at hpart
  refine ⟨hpart.1, isDigit_of_isBlank h, ?_, ?_⟩
  · rintro rfl
    exact absurd h (by decide)
  · rintro rfl
    exact absurd h (by decide)

/-! ## §2 Pieces -/

/-- What an exponent is: nothing, or a letter, perhaps a sign, and digits. -/
inductive IsExponent : List Char → Prop
  | none : IsExponent []
  | plain {letter : Char} {digits : List Char} (hletter : letter = 'e' ∨ letter = 'E')
      (hdigits : ∀ c ∈ digits, isDigit c = true) (hsome : digits ≠ []) :
      IsExponent (letter :: digits)
  | signed {letter sign : Char} {digits : List Char} (hletter : letter = 'e' ∨ letter = 'E')
      (hsign : sign = '+' ∨ sign = '-') (hdigits : ∀ c ∈ digits, isDigit c = true) :
      IsExponent (letter :: sign :: digits)

theorem isExponent_exponentOf (text : List Char) : IsExponent (exponentOf text) := by
  cases text with
  | nil => exact .none
  | cons letter rest =>
    simp only [exponentOf]
    split
    · rename_i hletter
      rw [Bool.or_eq_true, beq_iff_eq, beq_iff_eq] at hletter
      cases rest with
      | nil => exact .none
      | cons sign behind =>
        simp only
        split
        · rename_i hsign
          rw [Bool.or_eq_true, beq_iff_eq, beq_iff_eq] at hsign
          split
          · exact .none
          · exact .signed hletter hsign forall_takeWhile
        · split
          · exact .none
          · rename_i hsome
            exact .plain hletter forall_takeWhile (by simpa using hsome)
    · exact .none

/-- What the number at the front of a text is. -/
structure IsNumeral (n : Numeral) : Prop where
  whole : ∀ c ∈ n.whole, isDigit c = true
  fraction : ∀ c ∈ n.fraction, isDigit c = true
  exponent : IsExponent n.exponent

/-- A number takes at least one character. Without whole digits it begins with the point, and
digits follow. -/
theorem numeral?_eq_some {c : Char} {rest behind : List Char} {n : Numeral}
    (h : numeral? (c :: rest) = some (n, behind)) :
    IsNumeral n ∧ behind <:+ rest
      ∧ ((∃ digits, n.whole = c :: digits) ∨ n.whole = [] ∧ c = '.' ∧ n.fraction ≠ []) := by
  have hwhole : ∀ d ∈ (c :: rest).takeWhile isDigit, isDigit d = true := forall_takeWhile
  have hstart : (∃ digits, (c :: rest).takeWhile isDigit = c :: digits)
        ∧ (c :: rest).dropWhile isDigit <:+ rest
      ∨ (c :: rest).takeWhile isDigit = [] ∧ (c :: rest).dropWhile isDigit = c :: rest := by
    by_cases hc : isDigit c = true
    · exact .inl ⟨⟨rest.takeWhile isDigit, by simp [hc]⟩, Script.dropWhile_cons_suffix hc rest⟩
    · exact .inr (by simp [hc])
  simp only [numeral?] at h
  generalize (c :: rest).takeWhile isDigit = whole at hwhole hstart h
  generalize (c :: rest).dropWhile isDigit = middle at hstart h
  split at h
  · rename_i behind'
    simp only [Bool.not_true, Bool.false_or] at h
    split at h
    · cases h
    · rename_i hsome
      cases h
      have hbehind (count : Nat) : (behind'.dropWhile isDigit).drop count <:+ behind' :=
        (List.drop_suffix _ _).trans (List.dropWhile_suffix _)
      refine ⟨⟨hwhole, forall_takeWhile, isExponent_exponentOf _⟩, ?_⟩
      rcases hstart with ⟨hdigits, hsuffix⟩ | ⟨hnone, hpoint⟩
      · exact ⟨(hbehind _).trans ((List.suffix_cons _ _).trans hsuffix), .inl hdigits⟩
      · obtain ⟨rfl, rfl⟩ := List.cons.inj hpoint
        exact ⟨hbehind _, .inr ⟨hnone, rfl, by simpa [hnone] using hsome⟩⟩
  · simp only [Bool.not_false, Bool.true_or, Bool.and_true] at h
    split at h
    · cases h
    · rename_i hsome
      cases h
      rcases hstart with ⟨hdigits, hsuffix⟩ | ⟨hnone, _⟩
      · exact ⟨⟨hwhole, by simp, isExponent_exponentOf _⟩, (List.drop_suffix _ _).trans hsuffix,
          .inl hdigits⟩
      · simp [hnone] at hsome

/-- How a text is cut into pieces. -/
inductive IsCutInto : List Char → List Piece → Prop
  | nil : IsCutInto [] []
  | cons {c : Char} {rest behind : List Char} {p : Piece} {others : List Piece}
      (hpiece : nextPiece c rest = (p, behind)) (h : IsCutInto behind others) :
      IsCutInto (c :: rest) (p :: others)

/-- What a piece is. -/
theorem nextPiece_cases {c : Char} {rest behind : List Char} {p : Piece}
    (h : nextPiece c rest = (p, behind)) :
    (isNameStart c = true ∧ behind = rest.dropWhile isNamePart
        ∧ p = .name (c :: rest.takeWhile isNamePart) (opensCall behind))
      ∨ isNameStart c = false ∧ behind <:+ rest
        ∧ ((∃ n, p = .number n ∧ IsNumeral n
            ∧ ((∃ digits, n.whole = c :: digits) ∨ n.whole = [] ∧ c = '.' ∧ n.fraction ≠ []))
          ∨ p = .power ∨ p = .other c) := by
  unfold nextPiece at h
  split at h
  · rename_i hc
    cases h
    exact .inl ⟨hc, rfl, rfl⟩
  · rename_i hc
    refine .inr ⟨by simpa using hc, ?_⟩
    split at h
    · rename_i n behind' hnumeral
      cases h
      obtain ⟨hn, hsuffix, hstart⟩ := numeral?_eq_some hnumeral
      exact ⟨hsuffix, .inl ⟨n, rfl, hn, hstart⟩⟩
    · split at h <;> cases h
      · exact ⟨List.suffix_rfl, .inr (.inl rfl)⟩
      · exact ⟨List.suffix_rfl, .inr (.inr rfl)⟩

theorem nextPiece_suffix {c : Char} {rest behind : List Char} {p : Piece}
    (h : nextPiece c rest = (p, behind)) : behind <:+ rest := by
  rcases nextPiece_cases h with ⟨_, rfl, _⟩ | ⟨_, hsuffix, _⟩
  · exact List.dropWhile_suffix _
  · exact hsuffix

theorem isCutInto_piecesUpTo {limit : Nat} {text : List Char} (h : text.length ≤ limit) :
    IsCutInto text (piecesUpTo limit text) := by
  induction limit generalizing text with
  | zero =>
    obtain rfl : text = [] := List.length_eq_zero_iff.mp (by omega)
    exact .nil
  | succ limit ih =>
    cases text with
    | nil => exact .nil
    | cons c rest =>
      cases hpiece : nextPiece c rest with
      | mk p behind =>
        have hlength := (nextPiece_suffix hpiece).length_le
        simp only [List.length_cons] at h
        rw [piecesUpTo, hpiece]
        exact .cons hpiece (ih (by omega))

theorem isCutInto_pieces (text : List Char) : IsCutInto text (pieces text) :=
  isCutInto_piecesUpTo (le_refl _)

/-- A name among the pieces is one of an identifier's shape, and a part of the text. -/
theorem IsCutInto.name {text : List Char} {ps : List Piece} (h : IsCutInto text ps)
    {name : List Char} {called : Bool} (hname : .name name called ∈ ps) :
    (name.head?.map isNameStart).getD false = true
      ∧ ∀ c ∈ name, isNamePart c = true ∧ c ∈ text := by
  induction h with
  | nil => cases hname
  | @cons c rest behind p others hpiece _ ih =>
    rcases List.mem_cons.mp hname with rfl | hname
    · rcases nextPiece_cases hpiece with ⟨hstart, _, hp⟩ | ⟨_, _, ⟨_, hp, _⟩ | hp | hp⟩
      · cases hp
        refine ⟨hstart, fun d hd => ?_⟩
        rcases List.mem_cons.mp hd with rfl | hd
        · exact ⟨isNamePart_of_isNameStart hstart, List.mem_cons_self⟩
        · exact ⟨forall_takeWhile d hd, List.mem_cons_of_mem _ (List.takeWhile_subset _ hd)⟩
      all_goals cases hp
    · obtain ⟨hstart, hparts⟩ := ih hname
      refine ⟨hstart, fun d hd => ⟨(hparts d hd).1, List.mem_cons_of_mem _ ?_⟩⟩
      exact (nextPiece_suffix hpiece).subset (hparts d hd).2

/-- In a text without capitals, every name is a lower-case identifier. -/
theorem isIdentifier_of_mem_pieces {text name : List Char} {called : Bool}
    (htext : ∀ c ∈ text, isCapital c = false) (h : .name name called ∈ pieces text) :
    IsIdentifier name := by
  obtain ⟨hstart, hparts⟩ := (isCutInto_pieces text).name h
  refine ⟨hstart, fun c hc => ⟨(hparts c hc).1, ?_⟩⟩
  exact isLowered_of_isNamePart (hparts c hc).1 (htext c (hparts c hc).2)

/-! ## §3 Words -/

/-- The pieces in the notation of scripts. -/
def written (ps : List Piece) : List Char :=
  ps.flatMap Piece.script

/-- A whole word: on neither side of it there is a character that would join it. -/
structure IsWholeWord (before word behind : List Char) : Prop where
  start : (word.head?.map isNameStart).getD false = true
  parts : ∀ c ∈ word, isNamePart c = true
  before_ends : ∀ c ∈ before.getLast?, Script.IsBreak c
  behind_ends : ∀ c ∈ behind.head?, isNamePart c = false

/-- Which of the pieces a word in the notation of scripts comes from, and what stands behind it. -/
inductive Spelled (ps : List Piece) : List Char → List Char → Prop
  | marked {name behind : List Char} (hname : .name name false ∈ ps) :
      Spelled ps (variableName name) behind
  | called {name blanks behind : List Char} (hname : .name name true ∈ ps)
      (hblanks : ∀ c ∈ blanks, isBlank c = true) : Spelled ps name (blanks ++ '(' :: behind)
  /-- A point and a digit follow. -/
  | cutOff {word behind : List Char} {d : Char} (hd : isDigit d = true) :
      Spelled ps word ('.' :: d :: behind)

theorem Spelled.mono {ps ps' : List Piece} {word behind : List Char} (h : Spelled ps word behind)
    (hps : ps ⊆ ps') : Spelled ps' word behind := by
  cases h with
  | marked hname => exact .marked (hps hname)
  | called hname hblanks => exact .called (hps hname) hblanks
  | cutOff hd => exact .cutOff hd

/-- A name in front of a parenthesis stays in front of it, with blanks between at most. -/
theorem written_of_opensCall {text : List Char} {ps : List Piece} (h : IsCutInto text ps)
    (hopens : opensCall text = true) :
    ∃ blanks behind, written ps = blanks ++ '(' :: behind ∧ ∀ c ∈ blanks, isBlank c = true := by
  induction h with
  | nil => cases hopens
  | @cons c rest behind p others hpiece _ ih =>
    by_cases hblank : isBlank c = true
    · cases ((isOther_of_isBlank hblank).nextPiece_eq rest).symm.trans hpiece
      obtain ⟨blanks, behind, hwritten, hblanks⟩ := ih (by
        simpa [opensCall, trimStart, hblank] using hopens)
      refine ⟨c :: blanks, behind, ?_, by simpa [hblank] using hblanks⟩
      rw [written, List.flatMap_cons, ← written, hwritten]
      rfl
    · have hc : c = '(' := by simpa [opensCall, trimStart, hblank] using hopens
      subst hc
      cases (by rfl : nextPiece '(' rest = (.other '(', rest)).symm.trans hpiece
      exact ⟨[], written others, rfl, by simp⟩

/-- What a piece begins with that does not go on with a name: something that is no part of a name,
or a zero in front of a point and a digit. -/
theorem head_written {text : List Char} {ps : List Piece} (h : IsCutInto text ps)
    (hends : ∀ c ∈ text.head?, isNamePart c = false) :
    (∀ c ∈ (written ps).head?, isNamePart c = false)
      ∨ ∃ d behind, written ps = '0' :: '.' :: d :: behind ∧ isDigit d = true := by
  cases h with
  | nil => exact .inl nofun
  | @cons c rest behind p others hpiece h =>
    have hc := hends c rfl
    rw [written, List.flatMap_cons]
    rcases nextPiece_cases hpiece with ⟨hstart, _⟩ | ⟨_, _, ⟨n, rfl, hn, hstart⟩ | rfl | rfl⟩
    · rw [isNamePart_of_isNameStart hstart] at hc
      cases hc
    · rcases hstart with ⟨digits, hwhole⟩ | ⟨hwhole, rfl, hfraction⟩
      · refine .inl fun d hd => ?_
        simp only [Piece.script, Numeral.script, orZero, hwhole, List.isEmpty_cons, if_false,
          Bool.false_eq_true, List.cons_append, List.head?_cons, Option.mem_some_iff] at hd
        exact hd ▸ hc
      · obtain ⟨d, digits, hdigits⟩ := List.exists_cons_of_ne_nil hfraction
        refine .inr ⟨d, digits ++ n.exponent ++ written others, ?_, ?_⟩
        · simp [Piece.script, Numeral.script, orZero, hwhole, hdigits, written]
        · exact hn.fraction d (by simp [hdigits])
    · exact .inl (by rintro d ⟨⟩; decide)
    · exact .inl (by rintro d ⟨⟩; exact hc)

/-- A whole word is the run of name characters at its place. -/
theorem IsWholeWord.eq_takeWhile {before word behind : List Char}
    (h : IsWholeWord before word behind) {text : List Char} (htext : text = word ++ behind) :
    word = text.takeWhile isNamePart ∧ behind = text.dropWhile isNamePart := by
  rw [htext, takeWhile_run h.parts h.behind_ends, dropWhile_run h.parts h.behind_ends]
  exact ⟨rfl, rfl⟩

theorem ne_of_isNameStart {c d : Char} (hc : isNameStart c = true) (hd : isNameStart d = false) :
    c ≠ d := by
  rintro rfl
  rw [hc] at hd
  cases hd

/-- A name can only begin in an exponent at its letter. -/
theorem IsExponent.skips_none {skipped behind : List Char} {c : Char}
    (h : IsExponent (skipped ++ c :: behind)) (hc : isNameStart c = true) : skipped = [] := by
  have hdigit {digits : List Char} (hdigits : ∀ d ∈ digits, isDigit d = true) : c ∉ digits :=
    fun hmem => ne_of_isNameStart hc (isNameStart_of_isDigit (hdigits c hmem)) rfl
  generalize hexponent : skipped ++ c :: behind = exponent at h
  cases h with
  | none => simp at hexponent
  | plain hletter hdigits hsome =>
    cases skipped with
    | nil => rfl
    | cons letter skipped =>
      obtain ⟨_, rfl⟩ := List.cons.inj hexponent
      exact absurd (by simp) (hdigit hdigits)
  | signed hletter hsign hdigits =>
    match skipped with
    | [] => rfl
    | [letter] =>
      simp only [List.cons_append, List.nil_append, List.cons.injEq] at hexponent
      obtain ⟨_, rfl, _⟩ := hexponent
      rcases hsign with rfl | rfl <;> exact absurd hc (by decide)
    | letter :: sign :: skipped =>
      simp only [List.cons_append, List.cons.injEq] at hexponent
      obtain ⟨_, _, rfl⟩ := hexponent
      exact absurd (by simp) (hdigit hdigits)

/-- A letter in a number stands behind a digit. -/
theorem digit_before_letter {n : Numeral} (hn : IsNumeral n) {before behind : List Char} {c : Char}
    (hsplit : n.script = before ++ c :: behind) (hc : isNameStart c = true) :
    ∃ d ∈ before.getLast?, isDigit d = true := by
  have hdigits {digits : List Char} (hdigits : ∀ d ∈ digits, isDigit d = true) :
      ∀ d ∈ orZero digits, isDigit d = true := Script.forall_mem_orZero rfl hdigits
  have hnot {digits : List Char} (hall : ∀ d ∈ digits, isDigit d = true) : c ∉ orZero digits :=
    fun hmem => ne_of_isNameStart hc (isNameStart_of_isDigit (hdigits hall c hmem)) rfl
  have hfront : c ∉ orZero n.whole ++ '.' :: orZero n.fraction := by
    rw [List.mem_append, List.mem_cons, not_or, not_or]
    exact ⟨hnot hn.whole, ne_of_isNameStart hc (by decide), hnot hn.fraction⟩
  have hparts : (orZero n.whole ++ '.' :: orZero n.fraction) ++ n.exponent
      = before ++ c :: behind := by
    rw [← hsplit, Numeral.script]
    simp
  have hbefore : before = orZero n.whole ++ '.' :: orZero n.fraction := by
    rcases List.append_eq_append_iff.mp hparts with
      ⟨skipped, hbefore, hexponent⟩ | ⟨front, hwhole, hrest⟩
    · obtain rfl := (hexponent ▸ hn.exponent).skips_none hc
      rw [hbefore, List.append_nil]
    · cases front with
      | nil => rw [hwhole, List.append_nil]
      | cons d front =>
        obtain ⟨rfl, _⟩ := List.cons.inj hrest
        exact absurd (by rw [hwhole]; simp) hfront
  have hsome : orZero n.fraction ≠ [] := by
    unfold orZero
    split
    · exact List.cons_ne_nil _ _
    · rename_i hsome
      simpa using hsome
  refine ⟨(orZero n.fraction).getLast hsome, ?_, hdigits hn.fraction _ (List.getLast_mem hsome)⟩
  rw [hbefore, List.getLast?_append, List.getLast?_cons, List.getLast?_eq_some_getLast hsome]
  rfl

/-- A word that begins in a name is that name, with its mark, and perhaps with what joins it. -/
theorem word_of_name {name rest : List Char} {others : List Piece}
    (hname : ∀ c ∈ name, isNamePart c = true) (hrest : ∀ c ∈ rest.head?, isNamePart c = false)
    (h : IsCutInto rest others) {before word behind x : List Char}
    (hscript : (Piece.name name (opensCall rest)).script = before ++ x)
    (hx : word ++ behind = x ++ written others) (hword : IsWholeWord before word behind) :
    Spelled (.name name (opensCall rest) :: others) word behind := by
  have hparts : ∀ c ∈ (Piece.name name (opensCall rest)).script, isNamePart c = true := by
    rw [Piece.script]
    split
    · exact hname
    · simp only [variableName, variableMark, List.cons_append, List.nil_append, List.mem_cons]
      rintro c (rfl | rfl | hc)
      · decide
      · decide
      · exact hname c hc
  -- nothing of it stands in front of the word
  obtain rfl : before = [] := by
    cases hlast : before.getLast? with
    | none => exact List.getLast?_eq_none_iff.mp hlast
    | some c =>
      have hpart := hparts c (by rw [hscript]; simp [List.mem_of_getLast? hlast])
      rw [(hword.before_ends c hlast).1] at hpart
      cases hpart
  rw [List.nil_append] at hscript
  obtain ⟨hrun, hbehind⟩ := hword.eq_takeWhile hx.symm
  rw [← hscript] at hrun hbehind
  cases hcalled : opensCall rest with
  | true =>
    obtain ⟨blanks, tail, hothers, hblanks⟩ := written_of_opensCall h hcalled
    have hends : ∀ c ∈ (written others).head?, isNamePart c = false := by
      rw [hothers]
      cases blanks with
      | nil => rintro c ⟨⟩; decide
      | cons b blanks => rintro c ⟨⟩; exact isNamePart_of_isBlank (hblanks b (by simp))
    rw [hrun, takeWhile_run hparts hends, hbehind, dropWhile_run hparts hends, hothers,
      hcalled]
    exact .called List.mem_cons_self hblanks
  | false =>
    rcases head_written h hrest with hends | ⟨d, tail, hothers, hd⟩
    · rw [hrun, takeWhile_run hparts hends, hcalled]
      exact .marked List.mem_cons_self
    · rw [hbehind, List.dropWhile_append_of_pos hparts, hothers]
      exact .cutOff hd

/-- A word that begins in the first piece. -/
theorem word_of_piece {c d : Char} {rest text : List Char} {p : Piece} {others : List Piece}
    (hpiece : nextPiece c rest = (p, text)) (h : IsCutInto text others)
    {before word behind x : List Char} (hscript : p.script = before ++ d :: x)
    (hx : word ++ behind = d :: x ++ written others) (hword : IsWholeWord before word behind) :
    Spelled (p :: others) word behind := by
  obtain ⟨word, rfl⟩ : ∃ tail, word = d :: tail := by
    cases word with
    | nil => exact absurd hword.start (by decide)
    | cons e word =>
      obtain ⟨rfl, _⟩ := List.cons.inj hx
      exact ⟨word, rfl⟩
  have hd : isNameStart d = true := by simpa using hword.start
  rcases nextPiece_cases hpiece with ⟨hc, rfl, rfl⟩ | ⟨hc, _, ⟨n, rfl, hn, _⟩ | rfl | rfl⟩
  · refine word_of_name ?_ ?_ h hscript hx hword
    · simpa [isNamePart_of_isNameStart hc] using forall_takeWhile
    · exact head_dropWhile
  · obtain ⟨e, he, hdigit⟩ := digit_before_letter hn hscript hd
    rw [(hword.before_ends e he).2] at hdigit
    cases hdigit
  · have hpower : d ∈ (Piece.power).script := by rw [hscript]; simp
    obtain rfl : d = '*' := by simpa [Piece.script] using hpower
    exact absurd hd (by decide)
  · have hother : d ∈ (Piece.other c).script := by rw [hscript]; simp
    obtain rfl : d = c := by simpa [Piece.script] using hother
    rw [hc] at hd
    cases hd

/-- **Every word of a text in the notation of scripts comes from a name, or is cut off.** -/
theorem word_spelled {text : List Char} {ps : List Piece} (h : IsCutInto text ps)
    {before word behind : List Char} (hwritten : written ps = before ++ (word ++ behind))
    (hword : IsWholeWord before word behind) : Spelled ps word behind := by
  induction h generalizing before with
  | nil =>
    obtain ⟨_, hnone⟩ := List.append_eq_nil_iff.mp hwritten.symm
    obtain ⟨rfl, _⟩ := List.append_eq_nil_iff.mp hnone
    exact absurd hword.start (by decide)
  | @cons c rest text p others hpiece h ih =>
    rw [written, List.flatMap_cons, ← written] at hwritten
    -- the word begins behind the first piece
    have hbehind (before' : List Char) (hbefore : before = p.script ++ before')
        (hothers : written others = before' ++ (word ++ behind)) :
        Spelled (p :: others) word behind := by
      refine (ih hothers ⟨hword.start, hword.parts, fun d hd => ?_, hword.behind_ends⟩).mono
        (List.subset_cons_self _ _)
      refine hword.before_ends d ?_
      rw [hbefore, List.getLast?_append]
      simp [Option.mem_def.mp hd]
    rcases List.append_eq_append_iff.mp hwritten with ⟨before', hbefore, hothers⟩ | ⟨x, hscript, hx⟩
    · exact hbehind before' hbefore hothers
    cases x with
    | nil => exact hbehind [] (by simpa using hscript.symm) (by simpa using hx.symm)
    | cons d x => exact word_of_piece hpiece h hscript hx hword

end Formula

namespace Script

open Formula

/-! ## §4 Behind them -/

/-- Where neither a number nor a word nor a string begins, there must be a sign. -/
theorem lexToken_of_sign {limit : Nat} {c : Char} {text : List Char} (hpart : isNamePart c = false)
    (hquote : c ≠ '"' ∧ c ≠ '`' ∧ c ≠ '\'') : lexToken limit c text = lexSign (c :: text) := by
  rw [isNamePart, Bool.or_eq_false_iff] at hpart
  simp [lexToken, hpart, hquote]

/-- No sign holds a blank. -/
theorem isBlank_of_mem_signs {sign : List Char × Option Symbol} (h : sign ∈ signs) :
    ∀ c ∈ sign.1, isBlank c = false := by
  have hall : signs.all (fun sign => sign.1.all fun c => !isBlank c) = true := by rfl
  simpa using List.all_eq_true.mp hall sign h

/-- A blank is passed over, or there are no tokens. -/
theorem cut_of_blank {c : Char} {text : List Char} {tokens : List Token} (hc : isBlank c = true)
    (h : Cut (c :: text) tokens) : Cut text tokens := by
  cases h with
  | gap _ h => exact h
  | lineComment _ => exact absurd hc (by decide)
  | blockComment _ => exact absurd hc (by decide)
  | token hgap hcomment htoken _ =>
    have hquote : c ≠ '"' ∧ c ≠ '`' ∧ c ≠ '\'' := by
      refine ⟨?_, ?_, ?_⟩
      all_goals
        rintro rfl
        exact absurd hc (by decide)
    rw [lexToken_of_sign (isNamePart_of_isBlank hc) hquote] at htoken
    obtain ⟨sign, symbol, hmem, -, htext⟩ := lexSign_takes htoken
    obtain ⟨d, sign, rfl⟩ := List.exists_cons_of_ne_nil (signs_plain hmem).1
    obtain ⟨rfl, -⟩ := List.cons.inj htext
    rw [isBlank_of_mem_signs hmem c (by simp)] at hc
    cases hc

/-- A call is still one behind blanks. -/
theorem opensCall_of_cut {blanks behind : List Char} {tokens : List Token}
    (hblanks : ∀ c ∈ blanks, isBlank c = true) (h : Cut (blanks ++ '(' :: behind) tokens) :
    OpensCall tokens := by
  induction blanks with
  | nil =>
    cases h with
    | gap hc _ => exact absurd hc (by decide)
    | token _ _ htoken _ =>
      rw [lexToken_of_sign (by decide) (by decide)] at htoken
      obtain ⟨sign, symbol, hmem, rfl, htext⟩ := lexSign_takes htoken
      obtain ⟨d, sign, rfl⟩ := List.exists_cons_of_ne_nil (signs_plain hmem).1
      obtain ⟨rfl, -⟩ := List.cons.inj htext
      have hopening : ∀ sign ∈ signs, sign.1.head? = some '(' →
          sign.2 = some .unit ∨ sign.2 = some .openParen ∨ sign.2 = none := by decide
      rcases hopening _ hmem rfl with hsymbol | hsymbol | hsymbol
      · cases hsymbol
        exact .inl rfl
      · cases hsymbol
        exact .inr rfl
      · cases hsymbol
  | cons c blanks ih =>
    exact ih (fun d hd => hblanks d (by simp [hd])) (cut_of_blank (hblanks c (by simp)) h)

/-- A text behind the white space and the comments in front of it, which take at most `limit`
steps. -/
def skipGaps : (limit : Nat) → List Char → List Char
  | 0, text => text
  | _ + 1, [] => []
  | limit + 1, c :: rest =>
    if isGap c then skipGaps limit rest
    else
      match c, rest with
      | '/', '/' :: behind => skipGaps limit (afterLineComment behind)
      | '/', '*' :: behind => skipGaps limit (afterBlockComment 0 behind)
      | c, rest => c :: rest

/-- An exclamation mark and a parenthesis follow, with nothing but white space and comments in front
of them. -/
def opensInPlace (text : List Char) : Bool :=
  match skipGaps text.length text with
  | '!' :: behind => (skipGaps behind.length behind).head? == some '('
  | _ => false

/-- Somewhere in the text they follow a name. -/
def marksCall : List Char → Bool
  | [] => false
  | c :: rest => isNamePart c && opensInPlace rest || marksCall rest

/-- Behind white space and comments there is the first token. -/
theorem skipGaps_of_cut {text : List Char} {t : Token} {others : List Token} {limit : Nat}
    (h : Cut text (t :: others)) (hlimit : text.length ≤ limit) :
    ∃ c rest behind, skipGaps limit text = c :: rest
      ∧ lexToken rest.length c rest = .ok (t, behind) ∧ Cut behind others := by
  generalize htokens : t :: others = tokens at h
  induction h generalizing limit with
  | nil => cases htokens
  | @gap c rest _ hc _ ih =>
    obtain ⟨limit, rfl⟩ : ∃ n, limit = n + 1 := ⟨limit - 1, by simp at hlimit; omega⟩
    have hskip : skipGaps (limit + 1) (c :: rest) = skipGaps limit rest := by
      rw [skipGaps, if_pos hc]
      all_goals
        rintro _ rfl _
        exact absurd hc (by decide)
    rw [hskip]
    exact ih (by simpa using hlimit) htokens
  | @lineComment behind _ _ ih =>
    obtain ⟨limit, rfl⟩ : ∃ n, limit = n + 1 := ⟨limit - 1, by simp at hlimit; omega⟩
    have hlength := afterLineComment_length behind
    simp only [List.length_cons] at hlimit
    exact ih (by omega) htokens
  | @blockComment behind _ _ ih =>
    obtain ⟨limit, rfl⟩ : ∃ n, limit = n + 1 := ⟨limit - 1, by simp at hlimit; omega⟩
    have hlength := afterBlockComment_length 0 behind
    simp only [List.length_cons] at hlimit
    exact ih (by omega) htokens
  | @token c text rest _ _ hgap hcomment htoken hcut _ =>
    cases htokens
    obtain ⟨limit, rfl⟩ : ∃ n, limit = n + 1 := ⟨limit - 1, by simp at hlimit; omega⟩
    refine ⟨c, text, rest, ?_, htoken, hcut⟩
    rw [skipGaps, if_neg (by simp [hgap])]
    · rintro behind rfl rfl
      exact hcomment ⟨rfl, .inl rfl⟩
    · rintro behind rfl rfl
      exact hcomment ⟨rfl, .inr rfl⟩

/-- A sign is read where it is spelled. -/
theorem spelling_of_lexToken {limit : Nat} {c : Char} {text rest : List Char} {s : Symbol}
    (h : lexToken limit c text = .ok (.symbol s, rest)) :
    ∃ sign, (sign, some s) ∈ signs ∧ c :: text = sign ++ rest := by
  have hsign : lexSign (c :: text) = .ok (.symbol s, rest) := by
    rcases lexToken_takes h with ⟨hnumber, -⟩ | ⟨-, hword, -⟩ | ⟨-, hpart, -⟩
    · exact hnumber.elim
    · cases hword
    · rw [isNamePart, Bool.or_eq_false_iff] at hpart
      simp only [lexToken, hpart, Bool.false_eq_true, if_false] at h
      split at h
      · cases hstring : lexString '"' false limit text <;> rw [hstring] at h <;> cases h
      split at h
      · cases hstring : lexString '`' true limit (skipLineBreak text) <;> rw [hstring] at h <;>
          cases h
      split at h
      · obtain ⟨_, ⟨⟩, _⟩ := lexChar_eq_ok h
      · exact h
  obtain ⟨sign, symbol, hmem, hs, htext⟩ := lexSign_takes hsign
  cases hs
  exact ⟨sign, hmem, htext⟩

/-- A call in place is seen in the text. -/
theorem opensInPlace_of_cut {text : List Char} {tokens : List Token} (h : Cut text tokens)
    (hopens : OpensInPlace tokens) : opensInPlace text = true := by
  obtain ⟨others, rfl, hcall⟩ := hopens
  obtain ⟨c, rest, behind, hskip, htoken, hcut⟩ := skipGaps_of_cut h (le_refl _)
  have hmark : ∀ sign ∈ signs, sign.2 = some .not → sign.1 = ['!'] := by decide
  obtain ⟨sign, hsign, htext⟩ := spelling_of_lexToken htoken
  obtain rfl : sign = ['!'] := hmark _ hsign rfl
  obtain ⟨rfl, rfl⟩ := List.cons.inj htext
  rw [opensInPlace, hskip]
  have hparenthesis : ∀ sign ∈ signs, sign.2 = some .unit ∨ sign.2 = some .openParen →
      sign.1.head? = some '(' := by decide
  obtain ⟨s, others', rfl, hs⟩ : ∃ s others', others = .symbol s :: others'
      ∧ (s = .unit ∨ s = .openParen) := by
    rcases hcall with hcall | hcall
    · obtain ⟨others', rfl⟩ := List.head?_eq_some_iff.mp hcall
      exact ⟨_, others', rfl, .inl rfl⟩
    · obtain ⟨others', rfl⟩ := List.head?_eq_some_iff.mp hcall
      exact ⟨_, others', rfl, .inr rfl⟩
  obtain ⟨d, rest', behind', hskip', htoken', -⟩ := skipGaps_of_cut hcut (le_refl _)
  obtain ⟨sign', hsign', htext'⟩ := spelling_of_lexToken htoken'
  have hhead := hparenthesis _ hsign' (by rcases hs with rfl | rfl <;> simp)
  obtain ⟨tail, rfl⟩ := List.head?_eq_some_iff.mp hhead
  obtain ⟨rfl, -⟩ := List.cons.inj htext'
  simp only [hskip', List.head?_cons, beq_self_eq_true]

/-- It stands behind a name. -/
theorem marksCall_append {c : Char} {behind : List Char} (hc : isNamePart c = true)
    (h : opensInPlace behind = true) (before : List Char) :
    marksCall (before ++ c :: behind) = true := by
  induction before with
  | nil => simp [marksCall, hc, h]
  | cons d before ih => simp [marksCall, ih]

theorem isBreak_of_isGap {c : Char} (h : isGap c = true) : IsBreak c := by
  simp only [isGap, Bool.or_eq_true, beq_iff_eq] at h
  rcases h with (((rfl | rfl) | rfl) | rfl) | rfl <;> decide

/-- A point in front of a digit is a sign of its own, and no word follows it. -/
theorem isCutOff_of_cut {d : Char} {behind : List Char} {tokens : List Token}
    (hd : isDigit d = true) (h : Cut ('.' :: d :: behind) tokens) :
    IsCutOff tokens ∧ ¬ OpensCall tokens := by
  have hpoint : d ≠ '.' := by
    rintro rfl
    exact absurd hd (by decide)
  cases h with
  | gap hc _ => exact absurd hc (by decide)
  | @token _ _ rest t others _ _ htoken hcut =>
    have hsign : lexSign ('.' :: d :: behind) = .ok (.symbol .period, d :: behind) := by
      simp [lexSign, signs, List.isPrefixOf, hpoint.symm]
    rw [lexToken_of_sign (by decide) (by decide), hsign] at htoken
    cases htoken
    refine ⟨⟨others, rfl, fun w hw => ?_⟩, by simp [OpensCall]⟩
    -- the digit may begin a number, but no word
    cases hcut with
    | gap hc _ =>
      rw [(isBreak_of_isGap hc).2] at hd
      cases hd
    | lineComment _ => exact absurd hd (by decide)
    | blockComment _ => exact absurd hd (by decide)
    | token _ _ htoken _ =>
      obtain rfl := Option.some.inj hw
      rcases lexToken_takes htoken with ⟨hnumber, _⟩ | ⟨hstart, _⟩ | ⟨hclosed, _⟩
      · exact hnumber.elim
      · rw [isNameStart_of_isDigit hd] at hstart
        cases hstart
      · exact hclosed.elim

/-! ## §5 Tokens -/

section

variable (reads : String → Prop) (calls : Bool → String → Prop)

/-- What a word is with these tokens behind it: the name of a function called or of a variable
read, unless it is cut off from what follows. -/
structure WordUsed (w : String) (behind : List Token) : Prop where
  called : OpensCall behind → calls false w
  calledInPlace : OpensInPlace behind → calls true w
  read : ¬ OpensCall behind → ¬ IsCutOff behind → reads w

/-- The words among the tokens are names of functions called and of variables read. A word is left
out if it is glued to a number in front of it. -/
def WordsUsed : (glued : Bool) → List Token → Prop
  | _, [] => True
  | glued, .word w :: rest => (glued = false → WordUsed reads calls w rest) ∧ WordsUsed false rest
  | _, .int _ :: rest | _, .float _ :: rest => WordsUsed true rest
  | _, .text _ :: rest | _, .char _ :: rest | _, .symbol _ :: rest => WordsUsed false rest

theorem wordsUsed_glued {tokens : List Token} (h : WordsUsed reads calls false tokens) :
    WordsUsed reads calls true tokens := by
  cases tokens with
  | nil => trivial
  | cons t rest =>
    cases t with
    | word w => exact ⟨nofun, h.2⟩
    | _ => exact h

/-- Whatever is taken off the front, the words that are left are still of that kind. -/
def wordsUsed : TokenInvariant .formula where
  holds := WordsUsed reads calls
  reads := reads
  calls := calls
  weaken := wordsUsed_glued reads calls
  symbol h := h
  int h := h
  float h := h
  text h := h
  char h := h
  word _ h := h.2
  unglued := nofun
  reads_of_word h := (h.1 rfl).read
  calls_of_word h := (h.1 rfl).called
  calls_in_place h := (h.1 rfl).calledInPlace

end

/-- No name goes on over this place, and none begins right behind a number. -/
def IsEdge (before behind : List Char) : Prop :=
  (∀ c ∈ before.getLast?, IsBreak c) ∨ ∀ c ∈ behind.head?, isNamePart c = false

theorem isEdge_after {last : Char} (h : IsBreak last) (before behind : List Char) :
    IsEdge (before ++ [last]) behind := by
  refine .inl fun c hc => ?_
  obtain rfl : last = c := by simpa using hc
  exact h

/-- There is nothing, or it stands behind a character with which no name and no number ends. -/
def IsLeft (text rest : List Char) : Prop :=
  rest = [] ∨ ∃ used last, text = used ++ last :: rest ∧ IsBreak last

theorem IsLeft.cons {text rest : List Char} (h : IsLeft text rest) (c : Char) :
    IsLeft (c :: text) rest := by
  refine h.imp id ?_
  rintro ⟨used, last, rfl, hlast⟩
  exact ⟨c :: used, last, rfl, hlast⟩

theorem isLeft_afterLineComment (text : List Char) : IsLeft text (afterLineComment text) := by
  induction text with
  | nil => exact .inl rfl
  | cons c text ih =>
    rw [afterLineComment]
    split
    · rename_i hc
      refine .inr ⟨[], c, rfl, ?_⟩
      rw [Bool.or_eq_true, beq_iff_eq, beq_iff_eq] at hc
      rcases hc with rfl | rfl <;> decide
    · exact ih.cons c

theorem isLeft_afterBlockComment (depth : Nat) (text : List Char) :
    IsLeft text (afterBlockComment depth text) := by
  fun_induction afterBlockComment depth text with
  | case1 depth => exact .inl rfl
  | case2 depth rest ih => exact (ih.cons '*').cons '/'
  | case3 rest => exact .inr ⟨['*'], '/', rfl, by decide⟩
  | case4 depth rest ih => exact (ih.cons '/').cons '*'
  | case5 depth c rest _ _ _ ih => exact ih.cons c

/-- No name goes on over the place where a text is left. -/
theorem IsLeft.isEdge {text rest : List Char} (h : IsLeft text rest) (before : List Char) :
    ∃ before', before ++ text = before' ++ rest ∧ IsEdge before' rest := by
  rcases h with rfl | ⟨used, last, rfl, hlast⟩
  · exact ⟨before ++ text, by simp, .inr nofun⟩
  · exact ⟨before ++ used ++ [last], by simp, isEdge_after hlast _ _⟩

/-- Every whole word of the text is of the kind asked for, whatever tokens stand behind it. -/
def WordsMeet (reads : String → Prop) (calls : Bool → String → Prop) (all : List Char) : Prop :=
  ∀ before word behind tokens, all = before ++ (word ++ behind) → IsWholeWord before word behind →
    Cut behind tokens → WordUsed reads calls (String.ofList word) tokens

theorem isWholeWord_takeWhile {before text : List Char} {c : Char} (hstart : isNameStart c = true)
    (hedge : IsEdge before (c :: text)) :
    IsWholeWord before ((c :: text).takeWhile isNamePart) ((c :: text).dropWhile isNamePart) where
  start := by simpa [isNamePart_of_isNameStart hstart] using hstart
  parts := forall_takeWhile
  before_ends := by
    refine hedge.resolve_right fun hends => ?_
    have hpart := hends c rfl
    rw [isNamePart_of_isNameStart hstart] at hpart
    cases hpart
  behind_ends := head_dropWhile

/-- The words among the tokens are of the kind that the words of the text are. -/
theorem wordsUsed_of_cut {reads : String → Prop} {calls : Bool → String → Prop}
    {all text : List Char} {tokens : List Token} (hwords : WordsMeet reads calls all)
    (h : Cut text tokens) (before : List Char) (glued : Bool)
    (hall : all = before ++ text) (hedge : glued = false → IsEdge before text) :
    WordsUsed reads calls glued tokens := by
  have hleft {text rest before : List Char} (hall : all = before ++ text) (h : IsLeft text rest) :
      ∃ before', all = before' ++ rest ∧ IsEdge before' rest := by
    obtain ⟨before', hbefore, hedge⟩ := h.isEdge before
    exact ⟨before', hall.trans hbefore, hedge⟩
  induction h generalizing before glued with
  | nil => trivial
  | @gap c rest tokens hc _ ih =>
    obtain ⟨before', hall', hedge'⟩ := hleft hall (.inr ⟨[], c, rfl, isBreak_of_isGap hc⟩)
    exact ih before' glued hall' fun _ => hedge'
  | @lineComment behind _ _ ih =>
    obtain ⟨before', hall', hedge'⟩ :=
      hleft hall (((isLeft_afterLineComment behind).cons '/').cons '/')
    exact ih before' glued hall' fun _ => hedge'
  | @blockComment behind _ _ ih =>
    obtain ⟨before', hall', hedge'⟩ :=
      hleft hall (((isLeft_afterBlockComment 0 behind).cons '*').cons '/')
    exact ih before' glued hall' fun _ => hedge'
  | @token c text rest t tokens hgap hcomment htoken hcut ih =>
    rcases lexToken_takes htoken with ⟨hnumber, skipped, rfl⟩ | ⟨hstart, rfl, rfl⟩
      | ⟨hclosed, _, used, last, hused, hlast⟩
    · -- a word right behind a number is glued to it
      have hrest : WordsUsed reads calls true tokens :=
        ih (before ++ c :: skipped) true (by simp [hall]) nofun
      cases t with
      | int n => exact hrest
      | float x => exact hrest
      | _ => exact hnumber.elim
    · have hsplit := List.takeWhile_append_dropWhile (p := isNamePart) (l := c :: text)
      refine ⟨fun hglued => ?_, ih (before ++ (c :: text).takeWhile isNamePart) false ?_ fun _ =>
        .inr head_dropWhile⟩
      · refine hwords before _ _ tokens ?_ (isWholeWord_takeWhile hstart (hedge hglued)) hcut
        rw [hsplit, hall]
      · rw [List.append_assoc, hsplit, hall]
    · obtain ⟨before', hall', hedge'⟩ := hleft hall (.inr ⟨used, last, hused, hlast⟩)
      have hrest : WordsUsed reads calls false tokens := ih before' false hall' fun _ => hedge'
      cases t with
      | text s => exact hrest
      | char c => exact hrest
      | symbol s => exact hrest
      | _ => exact hclosed.elim

/-! ## §6 Expressions -/

/-- A variable that these pieces read. -/
def ReadsFrom (ps : List Piece) (w : String) : Prop :=
  ∃ name, .name name false ∈ ps ∧ w = String.ofList (variableName name)

/-- A function that these pieces call. Only the two that look for variables have to be named, and
calls in place have to be seen in the text. -/
def CallsFrom (ps : List Piece) (inPlace : Bool) (w : String) : Prop :=
  if inPlace then marksCall (written ps) = true
  else w = "is_def_var" ∨ w = "eval" → .name w.toList true ∈ ps

/-- What follows a whole word is seen in the text. -/
theorem marksCall_of_cut {before word behind : List Char} {tokens : List Token}
    (hword : IsWholeWord before word behind) (hcut : Cut behind tokens)
    (hopens : OpensInPlace tokens) : marksCall (before ++ (word ++ behind)) = true := by
  have hne : word ≠ [] := by
    rintro rfl
    exact absurd hword.start (by decide)
  have hlast := hword.parts _ (List.getLast_mem hne)
  rw [← List.dropLast_append_getLast hne, List.append_assoc, ← List.append_assoc]
  exact marksCall_append hlast (opensInPlace_of_cut hcut hopens) _

theorem wordsMeet_written {text : List Char} {ps : List Piece} (h : IsCutInto text ps) :
    WordsMeet (ReadsFrom ps) (CallsFrom ps) (written ps) := by
  intro before word behind tokens hwritten hword hcut
  have hmarked (hopens : OpensInPlace tokens) : CallsFrom ps true (String.ofList word) := by
    show marksCall (written ps) = true
    rw [hwritten]
    exact marksCall_of_cut hword hcut hopens
  cases word_spelled h hwritten hword with
  | @marked name behind hname =>
    refine ⟨fun _ hlook => ?_, hmarked, fun _ _ => ⟨_, hname, rfl⟩⟩
    obtain ⟨rest, hrest⟩ : ∃ rest, variableName name = 'v' :: rest := ⟨_, rfl⟩
    rcases hlook with hlook | hlook
    all_goals
      have hchars := congrArg String.toList hlook
      rw [String.toList_ofList, hrest] at hchars
      exact absurd (List.cons.inj hchars).1 (by decide)
  | called hname hblanks =>
    refine ⟨fun _ _ => ?_, hmarked, fun hnot => absurd (opensCall_of_cut hblanks hcut) hnot⟩
    rwa [String.toList_ofList]
  | cutOff hd =>
    obtain ⟨hcutOff, hopens⟩ := isCutOff_of_cut hd hcut
    exact ⟨fun h => absurd h hopens, hmarked, fun _ h => absurd hcutOff h⟩

/-- **An expression uses only what it names**, of the variables of a sheet and of the functions that
look for variables. -/
theorem uses_of_parseFormula {text : List Char} {e : Expr}
    (h : parseFormula (toScript text) = .ok e) :
    e.Uses (ReadsFrom (pieces text)) (CallsFrom (pieces text)) := by
  obtain ⟨tokens, rest, htokens, hrun⟩ := Parser.tokens_of_parseText h
  have hcut : Cut (written (pieces text)) tokens := tokenize_iff.mp htokens
  have hwords := wordsUsed_of_cut (wordsMeet_written (isCutInto_pieces text)) hcut [] false rfl
    fun _ => .inl nofun
  exact formula_meets (wordsUsed _ _) tokens e rest hwords hrun

end Script

end SumSheet
