/-
SumSheet.Proofs.QuotedText — what becomes of the text between quotes.

Scripts have strings, and an expression of a sheet may hold one. But an
expression is put into the notation of scripts without regard to quotes,
so what stands between them is transcribed like everything else: the
string `"a"` is `"v_a"` when it is evaluated. The only thing that a quote
does is end the piece in front of it (`toScript_quote`).

A piece is written as it stands (`Piece.isKept`) or with more characters
than it has. So the length of a string, as `len` gives it, is that of the
text exactly if every piece of the text is kept: no name that is not
called, no power sign, and no number without digits on both sides of a
point (`evaluate_lengthCall`).

What is transcribed between quotes stays there: no piece is written with
a quote, a backslash or a line feed.

  §1 Quotes  — the expression falls apart at them.
  §2 Pieces  — their length and characters in a script.
  §3 Tokens  — a string with a plain content, and the call around it.
  §4 Values  — the call gives the length of what was transcribed.
-/
import SumSheet.Proofs.ExpressionValue
import SumSheet.Proofs.TokenImages

namespace SumSheet

open Text

namespace Formula

/-! ## §1 Quotes -/

section

variable {p : Char → Bool} {quote : Char} (hquote : p quote = false) (text behind : List Char)
include hquote

theorem takeWhile_append_cons :
    (text ++ quote :: behind).takeWhile p = text.takeWhile p
      ∧ (text ++ quote :: behind).dropWhile p = text.dropWhile p ++ quote :: behind := by
  obtain ⟨run, rest, rfl, hrun, hrest⟩ := exists_run p text
  have hends : ∀ c ∈ (rest ++ quote :: behind).head?, p c = false := by
    cases rest with
    | nil => simpa using hquote
    | cons c rest => exact hrest
  rw [List.append_assoc, takeWhile_run hrun hends, dropWhile_run hrun hends,
    takeWhile_run hrun hrest, dropWhile_run hrun hrest]
  exact ⟨rfl, rfl⟩

end

theorem exponentOf_quote (text behind : List Char) :
    exponentOf (text ++ '"' :: behind) = exponentOf text := by
  cases text with
  | nil => simp [exponentOf]
  | cons letter rest =>
    by_cases hletter : letter = 'e' ∨ letter = 'E'
    · obtain ⟨sign, digits, rfl, hsign⟩ := exists_sign rest
      have hquoted : IsSignOf sign (digits ++ '"' :: behind) := by
        refine hsign.imp_left fun h => ⟨h.1, ?_⟩
        cases digits with
        | nil => simp
        | cons d digits => exact h.2
      have hrun := (takeWhile_append_cons (by decide : isDigit '"' = false) digits behind).1
      rw [List.cons_append, List.append_assoc, exponentOf_letter hletter hsign,
        exponentOf_letter hletter hquoted, hrun]
    · simp [exponentOf, hletter]

theorem NumberFront.quote {text whole point fraction rest : List Char}
    (h : NumberFront text whole point fraction rest) (behind : List Char) :
    NumberFront (text ++ '"' :: behind) whole point fraction (rest ++ '"' :: behind) := by
  cases h with
  | whole hwhole hrest =>
    rw [List.append_assoc]
    refine .whole hwhole ?_
    cases rest with
    | nil => simpa using (by decide : isDigit '"' = false)
    | cons c rest => exact hrest
  | pointed hwhole hfraction hrest =>
    rw [List.append_assoc, List.cons_append, List.append_assoc]
    refine .pointed hwhole hfraction ?_
    cases rest with
    | nil => simpa using (by decide : isDigit '"' = false)
    | cons c rest => exact hrest

theorem opensCall_quote (text behind : List Char) :
    opensCall (text ++ '"' :: behind) = opensCall text := by
  have htrim := (takeWhile_append_cons (by decide : isBlank '"' = false) text behind).2
  rw [opensCall, opensCall, trimStart, trimStart, htrim]
  cases text.dropWhile isBlank <;> rfl

/-- A piece ends at a quote, and is what it would be if the text ended there. -/
theorem nextPiece_quote {c : Char} {rest behind : List Char} {p : Piece}
    (h : nextPiece c rest = (p, behind)) (others : List Char) :
    nextPiece c (rest ++ '"' :: others) = (p, behind ++ '"' :: others) := by
  cases hstart : isNameStart c with
  | true =>
    obtain ⟨htake, hdrop⟩ :=
      takeWhile_append_cons (by decide : isNamePart '"' = false) rest others
    rw [nextPiece_name hstart] at h ⊢
    cases h
    rw [htake, hdrop, opensCall_quote]
  | false =>
    obtain ⟨whole, point, fraction, tail, hfront⟩ := exists_numberFront (c :: rest)
    have hquoted := hfront.quote others
    rw [List.cons_append] at hquoted
    rw [hfront.nextPiece_eq hstart] at h
    rw [hquoted.nextPiece_eq hstart, exponentOf_quote,
      List.drop_append_of_le_length (exponentOf_isPrefix tail).length_le]
    split_ifs at h ⊢ <;> cases h <;> rfl

theorem isOther_quote : IsOther '"' :=
  ⟨by decide, by decide, by decide, by decide⟩

theorem rewrites_of_isCutInto {text : List Char} {ps : List Piece} (h : IsCutInto text ps) :
    Rewrites text (written ps) := by
  induction h with
  | nil => exact rewrites_nil
  | @cons c rest behind p ps hpiece _ ih =>
    rw [written, List.flatMap_cons]
    exact ih.piece hpiece (nextPiece_suffix hpiece).length_le

theorem rewrites_quote {text script others : List Char} {ps : List Piece} (h : IsCutInto text ps)
    (hothers : Rewrites others script) :
    Rewrites (text ++ '"' :: others) (written ps ++ '"' :: script) := by
  induction h with
  | nil => exact hothers.other isOther_quote
  | @cons c rest behind p ps hpiece _ ih =>
    have hlength := (nextPiece_suffix hpiece).length_le
    rw [List.cons_append, written, List.flatMap_cons, List.append_assoc]
    exact ih.piece (nextPiece_quote hpiece others) (by simpa using hlength)

/-- **An expression is transcribed on both sides of a quote by itself.** -/
theorem toScript_quote (text others : List Char) :
    toScript (text ++ '"' :: others) = toScript text ++ '"' :: toScript others := by
  have hothers := rewrites_of_isCutInto (isCutInto_pieces others)
  exact rewrites_quote (isCutInto_pieces text) hothers _ (le_refl _)

/-! ## §2 Pieces -/

/-- The piece is written in a script as it stands. -/
def Piece.isKept : Piece → Bool
  | .name _ called => called
  | .number n => !n.whole.isEmpty && !n.fraction.isEmpty
  | .power => false
  | .other _ => true

/-- How a piece is written, given the characters it was cut from. -/
structure Widens (token : List Char) (p : Piece) : Prop where
  same : p.isKept = true → p.script = token
  longer : p.isKept = false → token.length < p.script.length
  mem : ∀ c ∈ p.script, c ∈ token ∨ c ∈ ['v', '_', '0', '.', '*']

theorem widens_name (name : List Char) (called : Bool) : Widens name (.name name called) := by
  cases called with
  | true => exact ⟨fun _ => rfl, nofun, fun c hc => .inl hc⟩
  | false =>
    have hscript : (Piece.name name false).script = 'v' :: '_' :: name := rfl
    refine ⟨nofun, fun _ => by rw [hscript]; simp, fun c hc => ?_⟩
    rw [hscript, List.mem_cons, List.mem_cons] at hc
    rcases hc with rfl | rfl | hc
    · exact .inr (by decide)
    · exact .inr (by decide)
    · exact .inl hc

theorem mem_orZero {digits : List Char} {c : Char} (h : c ∈ orZero digits) :
    c ∈ digits ∨ c = '0' := by
  cases digits with
  | nil => exact .inr (List.mem_singleton.mp h)
  | cons => exact .inl h

theorem length_orZero (digits : List Char) :
    (orZero digits).length = max 1 digits.length := by
  cases digits with
  | nil => rfl
  | cons d digits => exact (max_eq_right (Nat.succ_pos digits.length)).symm

theorem widens_number {text whole point fraction rest : List Char}
    (h : NumberFront text whole point fraction rest) :
    Widens (whole ++ (point ++ (fraction ++ exponentOf rest)))
      (.number ⟨whole, fraction, exponentOf rest⟩) := by
  have hpoint : point = [] ∧ fraction = [] ∨ point = ['.'] := by
    cases h <;> simp
  refine ⟨fun hkept => ?_, fun hkept => ?_, fun c hc => ?_⟩
  · obtain ⟨hwhole, hfraction⟩ : whole ≠ [] ∧ fraction ≠ [] := by simpa [Piece.isKept] using hkept
    obtain rfl : point = ['.'] := hpoint.resolve_left fun hnone => hfraction hnone.2
    simp [Piece.script, Numeral.script, orZero, hwhole, hfraction]
  · have hnone : whole.length = 0 ∨ fraction.length = 0 := by
      simpa [Piece.isKept, imp_iff_not_or] using hkept
    have hlength : point.length ≤ 1 := by
      rcases hpoint with ⟨rfl, _⟩ | rfl <;> simp
    simp only [Piece.script, Numeral.script, List.length_append, List.length_cons, length_orZero]
    omega
  · have hparts : c ∈ orZero whole ∨ c = '.' ∨ c ∈ orZero fraction ∨ c ∈ exponentOf rest := by
      simpa [Piece.script, Numeral.script] using hc
    rcases hparts with hc | rfl | hc | hc
    · exact (mem_orZero hc).imp (by simp +contextual) (by simp +contextual)
    · exact .inr (by decide)
    · exact (mem_orZero hc).imp (by simp +contextual) (by simp +contextual)
    · exact .inl (by simp [hc])

theorem widens_of_nextPiece {c : Char} {rest behind : List Char} {p : Piece}
    (h : nextPiece c rest = (p, behind)) :
    ∃ token, c :: rest = token ++ behind ∧ Widens token p := by
  obtain ⟨token, hsplit, hfirst⟩ := exists_firstPiece h
  refine ⟨token, hsplit, ?_⟩
  cases hfirst with
  | name _ => exact widens_name _ _
  | number hfront _ => exact widens_number hfront
  | power => exact ⟨by simp [Piece.isKept], fun _ => by decide, by simp [Piece.script]⟩
  | other _ _ _ => exact ⟨fun _ => rfl, by simp [Piece.isKept], fun d hd => .inl hd⟩

/-- A text is written as it stands if all of its pieces are, and longer if not. -/
theorem written_widens {text : List Char} {ps : List Piece} (h : IsCutInto text ps) :
    (ps.all Piece.isKept = true → written ps = text)
      ∧ (ps.all Piece.isKept = false → text.length < (written ps).length) := by
  induction h with
  | nil => exact ⟨fun _ => rfl, nofun⟩
  | @cons c rest behind p ps hpiece _ ih =>
    obtain ⟨token, hsplit, hwidens⟩ := widens_of_nextPiece hpiece
    have hpiece_le : token.length ≤ p.script.length := by
      cases hkept : p.isKept with
      | true => rw [hwidens.same hkept]
      | false => exact (hwidens.longer hkept).le
    have hothers_le : behind.length ≤ (written ps).length := by
      cases hkept : ps.all Piece.isKept with
      | true => rw [ih.1 hkept]
      | false => exact (ih.2 hkept).le
    rw [hsplit, written, List.flatMap_cons, ← written, List.all_cons]
    refine ⟨fun hkept => ?_, fun hkept => ?_⟩
    · rw [Bool.and_eq_true] at hkept
      rw [hwidens.same hkept.1, ih.1 hkept.2]
    · rw [List.length_append, List.length_append]
      rcases Bool.and_eq_false_iff.mp hkept with hkept | hkept
      · have := hwidens.longer hkept
        omega
      · have := ih.2 hkept
        omega

theorem mem_written {text : List Char} {ps : List Piece} (h : IsCutInto text ps) :
    ∀ c ∈ written ps, c ∈ text ∨ c ∈ ['v', '_', '0', '.', '*'] := by
  induction h with
  | nil => exact nofun
  | @cons c rest behind p ps hpiece _ ih =>
    obtain ⟨token, hsplit, hwidens⟩ := widens_of_nextPiece hpiece
    intro d hd
    rw [hsplit, List.mem_append]
    rw [written, List.flatMap_cons, ← written, List.mem_append] at hd
    rcases hd with hd | hd
    · exact (hwidens.mem d hd).imp_left .inl
    · exact (ih d hd).imp_left .inr

end Formula

namespace Script

open Formula SumSheet.Script.Parser Grammar

/-! ## §3 Tokens -/

/-- A text that can stand between quotes: without a quote, a backslash and a line feed. -/
def IsQuotable (text : List Char) : Prop :=
  ∀ c ∈ text, c ≠ '"' ∧ c ≠ '\\' ∧ c ≠ '\n'

theorem IsQuotable.toScript {text : List Char} (h : IsQuotable text) :
    IsQuotable (toScript text) := by
  intro c hc
  rcases mem_written (isCutInto_pieces text) c hc with hc | hc
  · exact h c hc
  · fin_cases hc <;> decide

/-- A plain content reaches as far as the closing quote. -/
theorem lexString_quotable {text rest : List Char} (h : IsQuotable text)
    (hrest : rest.head? ≠ some '"') {limit : Nat} (hlimit : text.length < limit) :
    lexString '"' false limit (text ++ '"' :: rest) = .ok (text, rest) := by
  induction text generalizing limit with
  | nil =>
    obtain ⟨limit, rfl⟩ : ∃ m, limit = m + 1 := ⟨limit - 1, by omega⟩
    cases rest with
    | nil => rfl
    | cons d rest =>
      have hd : d ≠ '"' := fun hd => hrest (by rw [hd]; rfl)
      simp [lexString, hd]
  | cons c text ih =>
    obtain ⟨limit, rfl⟩ : ∃ m, limit = m + 1 := ⟨limit - 1, by omega⟩
    obtain ⟨hquote, hslash, hfeed⟩ := h c List.mem_cons_self
    have htail : IsQuotable text := fun d hd => h d (List.mem_cons_of_mem _ hd)
    have hreturn : ((text ++ '"' :: rest).head? == some '\n') = false := by
      cases text with
      | nil => rfl
      | cons d text => simpa using (htail d List.mem_cons_self).2.2
    have hread : lexString '"' false limit (text ++ '"' :: rest) = .ok (text, rest) :=
      ih htail (by simpa using hlimit)
    simp only [List.cons_append, lexString, beq_eq_false_iff_ne.mpr hquote,
      beq_eq_false_iff_ne.mpr hslash, beq_eq_false_iff_ne.mpr hfeed, hreturn, Bool.false_and,
      Bool.and_false, Bool.false_eq_true, if_false, hread, Except.map]

/-- The call that asks for the length of a text. -/
def lengthCall (text : List Char) : List Char :=
  ['l', 'e', 'n'] ++ '(' :: '"' :: (text ++ ['"', ')'])

theorem toScript_lengthCall (text : List Char) :
    Formula.toScript (lengthCall text) = lengthCall (Formula.toScript text) := by
  have hname : IsIdentifier ['l', 'e', 'n'] := by
    refine ⟨by decide, fun c hc => ?_⟩
    fin_cases hc <;> decide
  have hparen : IsOther '(' := ⟨by decide, by decide, by decide, by decide⟩
  have hclose : Rewrites [')'] [')'] :=
    rewrites_nil.other ⟨by decide, by decide, by decide, by decide⟩
  have hquoted := rewrites_quote (isCutInto_pieces text) hclose
  have hends : ∀ c ∈ ('(' :: '"' :: (text ++ ['"', ')'])).head?, isNamePart c = false := by
    simpa using (by decide : isNamePart '(' = false)
  exact (((hquoted.other isOther_quote).other hparen).name hname hends) _ (le_refl _)

theorem cut_lengthCall {text : List Char} (h : IsQuotable text) :
    Cut (lengthCall text)
      [.word "len", .symbol .openParen, .text (String.ofList text), .symbol .closeParen] := by
  have hclose : Cut [')'] [.symbol .closeParen] := .token rfl (by simp [OpensComment]) rfl .nil
  have htext : Cut ('"' :: (text ++ ['"', ')']))
      [.text (String.ofList text), .symbol .closeParen] := by
    refine .token rfl (by simp [OpensComment]) ?_ hclose
    have hread : lexString '"' false (text ++ ['"', ')']).length (text ++ ['"', ')'])
        = .ok (text, [')']) := lexString_quotable h (by simp) (by simp)
    simp only [lexToken, hread, Except.map]
    rfl
  have hopen : Cut ('(' :: '"' :: (text ++ ['"', ')']))
      [.symbol .openParen, .text (String.ofList text), .symbol .closeParen] := by
    have hsign : lexSign ('(' :: '"' :: (text ++ ['"', ')']))
        = .ok (.symbol .openParen, '"' :: (text ++ ['"', ')'])) :=
      lexSign_open (by decide) (by decide)
    refine .token rfl (by simp [OpensComment]) ?_ htext
    rw [lexToken_of_sign (by decide) (by decide), hsign]
  exact .token rfl (by simp [OpensComment]) rfl hopen

/-- The tokens are read as a call with one argument. -/
theorem formula_lengthCall (text : String) :
    formula [.word "len", .symbol .openParen, .text text, .symbol .closeParen]
      = .ok (.call "len" [.text text], []) := by
  have hordinary : IsOrdinary "len" := ⟨by decide +kernel, by decide, by decide, by decide⟩
  have htext (levels : Nat) :
      (within .formula levels).operand [.text text, .symbol .closeParen]
        = answer levels 0 (.text text, [.symbol .closeParen]) := by
    rw [operand_within]
    refine operandOf_atom ?_ (endsExpr_close []).toEndsOperand (by simp [Lacks]) (by simp [Lacks])
      (by simp [Lacks])
    exact (answer_of_le (Nat.zero_le levels) _).symm
  have hcall (levels : Nat) :
      (within .formula levels).operand
          [.word "len", .symbol .openParen, .text text, .symbol .closeParen]
        = answer levels 2 (.call "len" [.text text], []) := by
    have hargument := below_answer Grammar.expr rfl
      (expr_of_operand htext (endsExpr_close [])) levels
    rw [operand_within]
    refine operandOf_atom (atom_call hordinary ?_) endsExpr_nil.toEndsOperand (by simp [Lacks])
      (by simp [Lacks]) (by simp [Lacks])
    exact itemsUpTo_last _ (by simp [Lacks]) hargument
  have hexpr := expr_of_operand hcall endsExpr_nil expressionLevels
  rw [answer_of_le (by decide)] at hexpr
  rw [formula, bind_ok hexpr]
  rfl

theorem parseFormula_lengthCall {text : List Char} (h : IsQuotable text) :
    parseFormula (lengthCall text) = .ok (.call "len" [.text (String.ofList text)]) := by
  rw [parseFormula, parseText, tokenize_iff.mpr (cut_lengthCall h)]
  show (formula _).map (·.1) = _
  rw [formula_lengthCall]
  rfl

/-! ## §4 Values -/

theorem apply_length (text : String) :
    Library.apply "len" [.text text] = .ok (.int text.length) := by
  simp [Library.apply, Library.matching?, Library.ofSheet?, Library.ofOne?, Library.size?]

theorem eval_lengthCall {p : Program} (hlen : p.find? "len" 1 = none) (bindings : List Binding)
    (text : String) :
    p.eval bindings (.call "len" [.text text]) = .ok (.int text.length) := by
  have hword : "len" ∉ callableWords := by decide
  have hcall : p.call Program.callLevels .plain "len" [.text text]
      = Run.ofResult (.ok (.int text.length)) := by
    rw [call_library hword [.text text] hlen, apply_length]
  have hrun : (Expr.call "len" [.text text]).eval (p.call Program.callLevels)
      (Machine.start bindings) = (.ok (.int text.length), ⟨2, bindings, none, []⟩) := by
    simp only [eval_call _ hword, evalLate_singleton, eval_text, bind_assoc, pure_bind, hcall]
    rfl
  exact eval_ok hrun

theorem evaluate_lengthCall_eq {p : Program} (hlen : p.find? "len" 1 = none) {text : List Char}
    (h : IsQuotable text) (scope : Scope) :
    p.evaluate (lengthCall text) scope
      = .ok (Number.ofInt (Formula.toScript text).length) := by
  simp only [Program.evaluate, toScript_lengthCall, parseFormula_lengthCall h.toScript,
    eval_lengthCall hlen, numberOf, String.length_ofList]

/-- **The length of a text between quotes is that of what it becomes in a script.** That is the text
itself if all of its pieces are kept, and a longer one if not. -/
theorem evaluate_lengthCall {p : Program} (hlen : p.find? "len" 1 = none) {text : List Char}
    (h : IsQuotable text) (scope : Scope) :
    p.evaluate (lengthCall text) scope = .ok (Number.ofInt (Formula.toScript text).length)
      ∧ ((pieces text).all Piece.isKept = true → Formula.toScript text = text)
      ∧ ((pieces text).all Piece.isKept = false
        → text.length < (Formula.toScript text).length) :=
  ⟨evaluate_lengthCall_eq hlen h scope, written_widens (isCutInto_pieces text)⟩

/-- A name in front of a parenthesis, and a number with digits on both sides of its point. -/
theorem evaluate_lengthCall_kept :
    Program.empty.find? "len" 1 = none ∧ IsQuotable "max (1.5)!".toList
      ∧ (pieces "max (1.5)!".toList).all Piece.isKept = true
      ∧ Program.empty.evaluate (lengthCall "max (1.5)!".toList) ∅ = .ok (Number.ofInt 10) := by
  have hquotable : IsQuotable "max (1.5)!".toList := by simp [IsQuotable]
  have hkept : (pieces "max (1.5)!".toList).all Piece.isKept = true := by decide
  obtain ⟨hvalue, hsame, -⟩ := evaluate_lengthCall (p := Program.empty) rfl hquotable ∅
  rw [hsame hkept] at hvalue
  exact ⟨rfl, hquotable, hkept, hvalue⟩

/-- One letter between quotes has the length of three. -/
theorem evaluate_lengthCall_letter :
    IsQuotable ['a'] ∧ Program.empty.evaluate (lengthCall ['a']) ∅ = .ok (Number.ofInt 3)
      ∧ Number.ofInt 3 ≠ Number.ofInt (['a'].length) := by
  have hquotable : IsQuotable ['a'] := by simp [IsQuotable]
  exact ⟨hquotable, evaluate_lengthCall_eq rfl hquotable ∅, by decide +kernel⟩

end Script

end SumSheet
