/-
SumSheet.Proofs.ScriptTokens — the tokens of arithmetic in the notation
of scripts.

  §1 Steps   — one gap or one token is cut off a text.
  §2 Numbers — a literal becomes the float nearest to what it spells.
  §3 Words   — variables and functions.
  §4 Signs   — a sign is cut off alone, whatever begins behind it.
  §5 Trees   — `tokenize_script`.
-/
import Mathlib
import SumSheet.Proofs.Decimals
import SumSheet.Proofs.ScriptNotation

namespace SumSheet.Script

open Text Number Formula

/-! ## §1 Steps -/

/-- The text has these tokens, whatever the limit on steps, as long as it is not below the length
of the text. -/
def Lexes (text : List Char) (tokens : List Token) : Prop :=
  ∀ limit, text.length ≤ limit → tokenizeWithin limit text = .ok tokens

theorem lexes_nil : Lexes [] [] := by
  intro limit hlimit
  cases limit <;> rfl

theorem Lexes.gap {c : Char} {rest : List Char} {tokens : List Token} (h : Lexes rest tokens)
    (hc : isGap c = true) : Lexes (c :: rest) tokens := by
  intro limit hlimit
  obtain ⟨limit, rfl⟩ : ∃ m, limit = m + 1 := ⟨limit - 1, by simp at hlimit; omega⟩
  rw [tokenizeWithin, if_pos hc, h limit (by simp at hlimit; omega)]
  · rintro behind rfl
    exact absurd hc (by decide)
  · rintro behind rfl
    exact absurd hc (by decide)

/-- One token is cut off. It must not begin a comment. -/
theorem Lexes.token {c : Char} {rest behind : List Char} {token : Token} {tokens : List Token}
    (h : Lexes behind tokens) (htoken : ∀ limit, lexToken limit c rest = .ok (token, behind))
    (hgap : isGap c = false) (hcomment : c = '/' → ∀ d ∈ rest.head?, d ≠ '/' ∧ d ≠ '*')
    (hlength : behind.length ≤ rest.length) : Lexes (c :: rest) (token :: tokens) := by
  intro limit hlimit
  obtain ⟨limit, rfl⟩ : ∃ m, limit = m + 1 := ⟨limit - 1, by simp at hlimit; omega⟩
  have hrest := h limit (by simp at hlimit; omega)
  rw [tokenizeWithin, if_neg (by simp [hgap]), htoken]
  · show (tokenizeWithin limit behind >>= fun tokens => pure (token :: tokens)) = _
    rw [hrest]
    rfl
  · rintro behind hc rfl
    exact (hcomment hc '/' rfl).1 rfl
  · rintro behind hc rfl
    exact (hcomment hc '*' rfl).2 rfl

theorem isGap_of_isNamePart {c : Char} (h : isNamePart c = true) : isGap c = false := by
  by_contra hgap
  simp only [isGap, Bool.not_eq_false, Bool.or_eq_true, beq_iff_eq] at hgap
  rcases hgap with (((rfl | rfl) | rfl) | rfl) | rfl <;> exact absurd h (by decide)

/-! ## §2 Numbers -/

theorem isNumberPart_of_isAsciiDigit {c : Char} (h : isAsciiDigit c = true) :
    isNumberPart c = true := by
  rw [isNumberPart, h, Bool.true_or]

theorem digitsOf_digits {ds : List Char} (h : ∀ c ∈ ds, isAsciiDigit c = true) :
    digitsOf ds = ds :=
  List.filter_eq_self.mpr h

theorem forall_mem_orZero {p : Char → Bool} (hzero : p '0' = true) {ds : List Char}
    (h : ∀ c ∈ ds, p c = true) : ∀ c ∈ orZero ds, p c = true := by
  rw [orZero]
  split
  · simpa using hzero
  · exact h

theorem orZero_ne_nil (ds : List Char) : orZero ds ≠ [] := by
  rw [orZero]
  split
  · simp
  · rename_i hsome
    simpa using hsome

/-- What ends a number is no part of it in a script either. -/
theorem isNumberPart_of_ends {rest : List Char} (h : EndsNumber rest) :
    ∀ c ∈ rest.head?, isNumberPart c = false := by
  intro c hc
  obtain ⟨hdigit, hstart, -⟩ := h c hc
  rw [isNumberPart, Bool.or_eq_false_iff, beq_eq_false_iff_ne]
  constructor
  · by_contra hascii
    rw [isDigit_of_isAsciiDigit (by simpa using hascii)] at hdigit
    cases hdigit
  · rintro rfl
    exact absurd hstart (by decide)

theorem exponent?_ends {rest : List Char} (h : EndsNumber rest) : exponent? rest = .ok none := by
  cases rest with
  | nil => rfl
  | cons c rest =>
    simp only [exponent?, ne_exponentLetter (h c rfl).2.1, Bool.false_eq_true, if_false]

theorem exponent?_text (x : LiteralExponent) {rest : List Char} (h : EndsNumber rest) :
    exponent? (x.text ++ rest) = .ok (some (x.value, rest)) := by
  have hparts : ∀ c ∈ x.digits, isNumberPart c = true :=
    fun c hc => isNumberPart_of_isAsciiDigit (x.isDigit_digits c hc)
  have hhead := isNumberPart_of_ends h
  have hletter : (x.letter == 'e' || x.letter == 'E') = true := by simpa using x.letter_eq
  have hsome : x.digits.isEmpty = false := by simpa using x.digits_ne_nil
  cases hsign : x.sign with
  | some s =>
    have hs : (s == '+' || s == '-') = true := by simpa using x.sign_eq s (by simp [hsign])
    simp only [LiteralExponent.text, LiteralExponent.value, hsign, Option.toList_some,
      List.cons_append, List.nil_append, exponent?, hletter, hs, if_true,
      takeWhile_run hparts hhead, dropWhile_run hparts hhead,
      digitsOf_digits x.isDigit_digits, hsome, Bool.false_eq_true, if_false, Option.some.injEq,
      beq_iff_eq]
  | none =>
    obtain ⟨d, ds, hd⟩ := List.exists_cons_of_ne_nil x.digits_ne_nil
    have hdigit := x.isDigit_digits d (by simp [hd])
    have hplain : (d == '+' || d == '-') = false := by
      rw [Bool.or_eq_false_iff, beq_eq_false_iff_ne, beq_eq_false_iff_ne]
      constructor
      · rintro rfl
        exact absurd hdigit (by decide)
      · rintro rfl
        exact absurd hdigit (by decide)
    have htake := takeWhile_run hparts hhead
    have hdrop := dropWhile_run hparts hhead
    have hds := digitsOf_digits x.isDigit_digits
    rw [hd] at hds
    rw [hd, List.cons_append] at htake hdrop
    simp only [LiteralExponent.text, LiteralExponent.value, hsign, Option.toList_none,
      List.nil_append, List.cons_append, exponent?, hletter, hd, hplain, if_true, hdigit, htake,
      hdrop, hds, Bool.false_eq_true, if_false, reduceCtorEq]

theorem fraction?_digits {ds rest : List Char} (hds : ∀ c ∈ ds, isAsciiDigit c = true)
    (hne : ds ≠ []) (hrest : ∀ c ∈ rest.head?, isNumberPart c = false) :
    fraction? ('.' :: (ds ++ rest)) = some (ds, rest) := by
  have hparts : ∀ c ∈ ds, isNumberPart c = true :=
    fun c hc => isNumberPart_of_isAsciiDigit (hds c hc)
  have htake := takeWhile_run hparts hrest
  have hdrop := dropWhile_run hparts hrest
  obtain ⟨d, tail, rfl⟩ := List.exists_cons_of_ne_nil hne
  rw [List.cons_append] at htake hdrop ⊢
  simp only [fraction?, hds d (by simp), if_true, htake, hdrop, digitsOf_digits hds]

theorem ofDigits_orZero_append (ds es : List Char) :
    ofDigits (orZero ds ++ es) = ofDigits (ds ++ es) := by
  rw [orZero]
  split
  · rename_i hnone
    rw [List.isEmpty_iff.mp hnone, ofDigits_append]
    simp [ofDigits, digitValue]
  · rfl

/-- The zeros that a script puts around the point do not change the number. -/
theorem value_script (l : Literal) :
    ofDecimal (ofDigits (orZero l.whole ++ orZero l.places))
      (l.exponentValue - (orZero l.places).length) = l.value := by
  rw [ofDigits_orZero_append, Literal.value]
  apply ofDecimal_congr
  rw [orZero]
  split
  · rename_i hnone
    rw [List.isEmpty_iff.mp hnone, ofDigits_append, List.append_nil, zpow_sub₀ (by norm_num)]
    simp [ofDigits, digitValue]
    ring
  · rfl

theorem lexNumber_script (l : Literal) {rest : List Char} (h : EndsNumber rest) :
    lexNumber (l.script ++ rest) = .ok (.float l.value, rest) := by
  have hwhole := forall_mem_orZero rfl l.isDigit_whole
  have hplaces : ∀ c ∈ orZero l.places, isAsciiDigit c = true :=
    forall_mem_orZero rfl l.isDigit_fraction
  have hparts : ∀ c ∈ orZero l.whole, isNumberPart c = true :=
    fun c hc => isNumberPart_of_isAsciiDigit (hwhole c hc)
  have hbehind := head_exponentText l (isNumberPart_of_ends h) (by decide) (by decide)
  have hpoint : ∀ c ∈ ('.' :: (orZero l.places ++ (l.exponentText ++ rest))).head?,
      isNumberPart c = false := by
    rintro c ⟨rfl⟩
    decide
  have hfraction := fraction?_digits hplaces (orZero_ne_nil _) hbehind
  have hvalue := value_script l
  rw [Literal.script, List.append_assoc, List.cons_append, List.append_assoc]
  simp only [lexNumber, takeWhile_run hparts hpoint, dropWhile_run hparts hpoint, hfraction,
    digitsOf_digits hwhole, Option.getD_some]
  rw [Literal.exponentText]
  rw [Literal.exponentValue] at hvalue
  cases hx : l.exponent with
  | none =>
    rw [hx, zero_sub] at hvalue
    rw [List.nil_append, exponent?_ends h, ← hvalue]
    rfl
  | some x =>
    rw [hx] at hvalue
    rw [exponent?_text x h, ← hvalue]
    rfl

theorem lexToken_script (l : Literal) {rest : List Char} (h : EndsNumber rest) :
    ∃ c tail, l.script = c :: tail ∧ isAsciiDigit c = true
      ∧ ∀ limit, lexToken limit c (tail ++ rest) = .ok (.float l.value, rest) := by
  have hlex := lexNumber_script l h
  obtain ⟨c, cs, hcs⟩ : ∃ c cs, orZero l.whole = c :: cs :=
    List.exists_cons_of_ne_nil (orZero_ne_nil _)
  have hdigit : isAsciiDigit c = true := forall_mem_orZero rfl l.isDigit_whole c (by simp [hcs])
  have hscript : l.script = c :: (cs ++ '.' :: (orZero l.places ++ l.exponentText)) := by
    rw [Literal.script, hcs, List.cons_append]
  rw [hscript, List.cons_append] at hlex
  exact ⟨c, _, hscript, hdigit, fun limit => by rw [lexToken, if_pos hdigit, hlex]⟩

theorem Lexes.number (l : Literal) {rest : List Char} {tokens : List Token}
    (hrest : EndsNumber rest) (h : Lexes rest tokens) :
    Lexes (l.script ++ rest) (.float l.value :: tokens) := by
  obtain ⟨c, tail, hscript, hdigit, hlex⟩ := lexToken_script l hrest
  rw [hscript, List.cons_append]
  refine h.token hlex (isGap_of_isNamePart (by simp [isNamePart, hdigit])) ?_ (by simp)
  rintro rfl
  exact absurd hdigit (by decide)

/-! ## §3 Words -/

theorem lexWord_name {c : Char} {cs rest : List Char} (hparts : ∀ d ∈ cs, isNamePart d = true)
    (hc : isNamePart c = true) (hname : isName (c :: cs) = true)
    (hrest : ∀ d ∈ rest.head?, isNamePart d = false) :
    lexWord (c :: (cs ++ rest)) = .ok (.word (String.ofList (c :: cs)), rest) := by
  have hrun : ∀ d ∈ c :: cs, isNamePart d = true := by
    simpa [hc] using hparts
  have htake := takeWhile_run hrun hrest
  have hdrop := dropWhile_run hrun hrest
  rw [List.cons_append] at htake hdrop
  simp only [lexWord, htake, hdrop, hname, if_true]

theorem lexToken_name {name rest : List Char} (hidentifier : IsIdentifier name)
    (hname : isName name = true) (hrest : ∀ c ∈ rest.head?, isNamePart c = false) :
    ∃ c tail, name = c :: tail ∧ isNameStart c = true
      ∧ ∀ limit, lexToken limit c (tail ++ rest) = .ok (.word (String.ofList name), rest) := by
  obtain ⟨hstart, hparts⟩ := hidentifier
  cases name with
  | nil => exact absurd hstart (by decide)
  | cons c cs =>
    simp only [List.head?_cons, Option.map_some, Option.getD_some] at hstart
    have hdigit : isAsciiDigit c = false := by
      by_contra hdigit
      rw [Bool.not_eq_false] at hdigit
      exact absurd hstart (by simp [isNameStart_of_isAsciiDigit hdigit])
    refine ⟨c, cs, rfl, hstart, fun limit => ?_⟩
    rw [lexToken, if_neg (by simp [hdigit]), if_pos hstart,
      lexWord_name (fun d hd => (hparts d (by simp [hd])).1) (hparts c (by simp)).1 hname hrest]

theorem Lexes.word {name rest : List Char} {tokens : List Token} (h : Lexes rest tokens)
    (hidentifier : IsIdentifier name) (hname : isName name = true)
    (hrest : ∀ c ∈ rest.head?, isNamePart c = false) :
    Lexes (name ++ rest) (.word (String.ofList name) :: tokens) := by
  obtain ⟨c, tail, htext, hstart, hlex⟩ := lexToken_name hidentifier hname hrest
  rw [htext] at hlex ⊢
  rw [List.cons_append]
  refine h.token hlex (isGap_of_isNamePart (by simp [isNamePart, hstart])) ?_ (by simp)
  rintro rfl
  exact absurd hstart (by decide)

theorem isIdentifier_variableName (x : Identifier) : IsIdentifier (variableName x.1) := by
  refine ⟨by rfl, fun c hc => ?_⟩
  simp only [variableName, variableMark, List.cons_append, List.nil_append, List.mem_cons] at hc
  rcases hc with rfl | rfl | hc
  · decide
  · decide
  · exact x.2.2 c hc

theorem isName_builtin {f : String} (h : IsBuiltin f) : isName f.toList = true := by
  have hall : ∀ b ∈ builtins, isName b.name.toList = true := by
    intro b hb
    fin_cases hb <;> simp <;> decide
  obtain ⟨b, hb, rfl⟩ := h
  exact hall b hb

/-! ## §4 Signs -/

/-- What an operand begins with: a digit, a letter, an underscore or a parenthesis. -/
def BeginsOperand (rest : List Char) : Prop :=
  ∃ c tail, rest = c :: tail ∧ (isAsciiDigit c = true ∨ isNameStart c = true ∨ c = '(')

theorem Lexes.sign {c : Char} {rest behind : List Char} {symbol : Symbol} {tokens : List Token}
    (h : Lexes behind tokens) (hsign : lexSign (c :: rest) = .ok (.symbol symbol, behind))
    (hc : c ∈ ['+', '-', '*', '/', '%', '(', ')', ','])
    (hcomment : c = '/' → ∀ d ∈ rest.head?, d ≠ '/' ∧ d ≠ '*')
    (hlength : behind.length ≤ rest.length) :
    Lexes (c :: rest) (.symbol symbol :: tokens) := by
  have hgap : isGap c = false := by fin_cases hc <;> rfl
  have hlex (limit : Nat) : lexToken limit c rest = lexSign (c :: rest) := by
    fin_cases hc <;> rfl
  exact h.token (fun limit => (hlex limit).trans hsign) hgap hcomment hlength

theorem Lexes.close {rest : List Char} {tokens : List Token} (h : Lexes rest tokens) :
    Lexes (')' :: rest) (.symbol .closeParen :: tokens) :=
  h.sign rfl (by decide) (by rintro ⟨⟩) (le_refl _)

theorem Lexes.comma {rest : List Char} {tokens : List Token} (h : Lexes rest tokens) :
    Lexes (',' :: ' ' :: rest) (.symbol .comma :: tokens) :=
  (h.gap rfl).sign rfl (by decide) (by rintro ⟨⟩) (le_refl _)

theorem lexSign_open {c : Char} {rest : List Char} (hclose : c ≠ ')') (htimes : c ≠ '*') :
    lexSign ('(' :: c :: rest) = .ok (.symbol .openParen, c :: rest) := by
  simp [lexSign, signs, List.isPrefixOf, hclose.symm, htimes.symm]

/-- The signs of a sum and of a remainder. -/
def sumSigns : List (Char × Symbol) := [('+', .plus), ('-', .minus), ('%', .modulo)]

/-- They are cut off alone, unless one of these characters begins behind them. -/
theorem lexSign_alone {c : Char} {symbol : Symbol} {rest : List Char}
    (hc : (c, symbol) ∈ sumSigns) (hrest : ∀ d ∈ rest.head?, d ∉ ['=', '+', '-', '>']) :
    lexSign (c :: rest) = .ok (.symbol symbol, rest) := by
  rw [sumSigns] at hc
  cases rest with
  | nil => fin_cases hc <;> rfl
  | cons d rest =>
    have hd := hrest d rfl
    simp only [List.mem_cons, List.not_mem_nil, or_false, not_or] at hd
    obtain ⟨hassign, hplus, hminus, harrow⟩ := hd
    fin_cases hc <;>
      simp [lexSign, signs, List.isPrefixOf, Ne.symm hassign, Ne.symm hplus, Ne.symm hminus,
        Ne.symm harrow]

/-- An operand begins with none of these. -/
theorem BeginsOperand.ne {c : Char} {rest : List Char} (h : BeginsOperand (c :: rest)) {d : Char}
    (hdigit : isAsciiDigit d = false) (hstart : isNameStart d = false) (hopen : d ≠ '(') :
    c ≠ d := by
  rintro rfl
  obtain ⟨_, _, heq, hc⟩ := h
  obtain ⟨rfl, -⟩ := List.cons.inj heq
  rw [hdigit, hstart] at hc
  simp [hopen] at hc

theorem Lexes.minus {rest : List Char} {tokens : List Token} (h : Lexes rest tokens)
    (hbegins : BeginsOperand rest) : Lexes ('-' :: rest) (.symbol .minus :: tokens) := by
  refine h.sign (lexSign_alone (by simp [sumSigns]) ?_) (by decide) (by rintro ⟨⟩) (le_refl _)
  obtain ⟨c, tail, rfl, -⟩ := id hbegins
  rintro d ⟨rfl⟩ hd
  fin_cases hd <;> exact hbegins.ne rfl rfl (by decide) rfl

theorem Lexes.openParen {rest : List Char} {tokens : List Token} (h : Lexes rest tokens)
    (hbegins : BeginsOperand rest ∨ ∃ r, rest = ['-'] ++ r) :
    Lexes ('(' :: rest) (.symbol .openParen :: tokens) := by
  rcases hbegins with hbegins | ⟨r, rfl⟩
  · obtain ⟨c, tail, rfl, -⟩ := id hbegins
    exact h.sign (lexSign_open (hbegins.ne rfl rfl (by decide)) (hbegins.ne rfl rfl (by decide)))
      (by decide) (by rintro ⟨⟩) (le_refl _)
  · exact h.sign (lexSign_open (by decide) (by decide)) (by decide) (by rintro ⟨⟩) (le_refl _)

theorem Lexes.operator (op : ArithmeticOp) {rest : List Char} {tokens : List Token}
    (h : Lexes rest tokens) :
    Lexes (scriptAlphabet.operator op ++ rest) (.symbol op.symbol :: tokens) := by
  have hbehind : Lexes (' ' :: rest) tokens := h.gap rfl
  refine Lexes.gap ?_ rfl
  cases op with
  | divide => exact hbehind.sign rfl (by decide) (by rintro - d ⟨rfl⟩; decide) (le_refl _)
  | power => exact hbehind.sign rfl (by decide) (by rintro ⟨⟩) (by simp)
  | _ => exact hbehind.sign rfl (by decide) (by rintro ⟨⟩) (le_refl _)

/-! ## §5 Trees -/

/-- The pieces of a tree in a script become its tokens. -/
theorem reads_tokens :
    Reads scriptAlphabet tokenAlphabet Lexes IsSeparated BeginsOperand where
  number l hends h := h.number l hends.endsNumber
  name x hends h := h.word (isIdentifier_variableName x) (by rfl)
    (hends.head (by decide) (by decide) (by decide))
  call {_ _ f} hf hbegins h := by
    simp only [scriptAlphabet, tokenAlphabet, List.append_assoc]
    have hword := (h.openParen hbegins).word (isIdentifier_builtin hf) (isName_builtin hf)
      (by rintro c ⟨rfl⟩; decide)
    rw [String.ofList_toList] at hword
    exact hword
  minus hbegins h := h.minus hbegins
  operator op h := h.operator op
  openGroup hbegins h := h.openParen hbegins
  close h := h.close
  comma h := h.comma
  ends_operator op rest := by rintro c ⟨rfl⟩; exact .inl rfl
  ends_close rest := by rintro c ⟨rfl⟩; exact .inr (.inl rfl)
  ends_comma rest := by rintro c ⟨rfl⟩; exact .inr (.inr rfl)
  starts_number l rest := by
    obtain ⟨c, cs, hcs⟩ := List.exists_cons_of_ne_nil (orZero_ne_nil l.whole)
    refine ⟨c, cs ++ '.' :: (orZero l.places ++ l.exponentText) ++ rest, ?_, .inl ?_⟩
    · simp [scriptAlphabet, Literal.script, hcs]
    · exact forall_mem_orZero rfl l.isDigit_whole c (by simp [hcs])
  starts_name x rest := ⟨_, _, rfl, .inr (.inl (by decide))⟩
  starts_call {f} hf rest := by
    have hstart := (isIdentifier_builtin hf).1
    cases hf : f.toList with
    | nil => exact absurd hstart (by rw [hf]; decide)
    | cons c cs =>
      rw [hf] at hstart
      exact ⟨c, cs ++ ['('] ++ rest, by simp [scriptAlphabet, hf], .inr (.inl hstart)⟩
  starts_openGroup rest := ⟨_, _, rfl, .inr (.inr rfl)⟩

/-- A tree in a script has these tokens. -/
theorem tokenize_script (t : Arithmetic) :
    tokenize (t.write scriptAlphabet) = .ok (t.write tokenAlphabet) := by
  have hlexes := reads_tokens.tree t [] [] (by simp [IsSeparated]) lexes_nil
  rw [List.append_nil, List.append_nil] at hlexes
  exact hlexes _ (le_refl _)

end SumSheet.Script
