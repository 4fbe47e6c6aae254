/-
SumSheet.Proofs.PercentageNotation — no percentage in words is an
expression.

A line is read as a percentage in words before it is evaluated. That
never takes an expression away: what spells a percentage has one of two
shapes, and in the notation of scripts neither of them is a formula. In
`P% of N` the percent sign is the sign of the remainder and `of` its
operand, so that `N` stands where the formula has ended; in `N + P%`
nothing stands behind the percent sign.

The blanks in a percentage are those of any script, while only some of
them may stand between tokens. It does not matter which ones occur: a
blank that is no gap leaves the text without any tokens, and it is no
formula for that reason.

  §1 Scripts  — the shapes in the notation of scripts.
  §2 Tokens   — which tokens they have, if they have any.
  §3 Formulas — no formula has those tokens.
  §4 Lines    — it does not matter what a line is read as first.
-/
import Mathlib
import SumSheet.Pass
import SumSheet.Proofs.NamesRead
import SumSheet.Proofs.PercentageShapes
import SumSheet.Proofs.ScriptReading

namespace SumSheet

open Text

namespace Formula

/-! ## §1 Scripts -/

theorem endsNumber_nil : EndsNumber [] :=
  nofun

theorem IsOther.endsNumber {c : Char} (h : IsOther c) (rest : List Char) :
    EndsNumber (c :: rest) := by
  rintro d ⟨rfl⟩
  exact ⟨h.2.1, h.1, h.2.2.1⟩

theorem isOther_percent : IsOther '%' :=
  ⟨by decide, by decide, by decide, by decide⟩

section

variable {run rest script : List Char} (hrun : AreBlank run)

include hrun

theorem endsNumber_blanks (hrest : EndsNumber rest) : EndsNumber (run ++ rest) := by
  cases run with
  | nil => exact hrest
  | cons c run => exact (isOther_of_isBlank (hrun c (by simp))).endsNumber _

/-- Blanks stay as they are. -/
theorem Rewrites.blanks (h : Rewrites rest script) :
    Rewrites (run ++ rest) (run ++ script) := by
  induction run with
  | nil => exact h
  | cons c run ih =>
    exact (ih fun d hd => hrun d (by simp [hd])).other
      (isOther_of_isBlank (hrun c (by simp)))

/-- A number opens no call, whatever blanks stand in front of it. -/
theorem opensCall_literal (l : Literal) : opensCall (run ++ l.text) = false := by
  obtain ⟨c, tail, htext, hc⟩ := head_text l
  have hhead : isBlank c = false ∧ c ≠ '(' := by
    rcases hc with hdigit | rfl
    · constructor
      · by_contra hblank
        rw [Bool.not_eq_false] at hblank
        exact absurd (isDigit_of_isBlank hblank) (by simp [isDigit_of_isAsciiDigit hdigit])
      · rintro rfl
        exact absurd hdigit (by decide)
    · decide
  rw [opensCall, trimStart, htext, dropWhile_run hrun (by rintro d ⟨rfl⟩; exact hhead.1)]
  simp [hhead.2]

end

theorem rewrites_literal (l : Literal) : Rewrites l.text l.script := by
  have h := rewrites_nil.number l endsNumber_nil
  rwa [List.append_nil, List.append_nil] at h

section

variable {before after : List Char} (hbefore : AreBlank before) (hafter : AreBlank after)

include hbefore hafter

theorem toScript_phrase (percent base : Literal) (word : Identifier) (hsome : after ≠ []) :
    toScript (percent.text ++ '%' :: (before ++ (word.1 ++ (after ++ base.text))))
      = percent.script ++ '%' :: (before ++ (variableName word.1 ++ (after ++ base.script))) := by
  have hends : ∀ c ∈ (after ++ base.text).head?, isNamePart c = false := by
    obtain ⟨c, tail, rfl⟩ := List.exists_cons_of_ne_nil hsome
    rintro d ⟨rfl⟩
    exact isNamePart_of_isBlank (hafter _ (by simp))
  have hword := ((rewrites_literal base).blanks hafter).name word.2 hends
  rw [opensCall_literal hafter base] at hword
  exact ((hword.blanks hbefore).other isOther_percent).number percent
    (isOther_percent.endsNumber _) _ (le_refl _)

theorem toScript_change (base percent : Literal) {op : ArithmeticOp} (hop : op ≠ .power) :
    toScript (base.text ++ (before ++ op.sign :: (after ++ (percent.text ++ ['%']))))
      = base.script ++ (before ++ op.sign :: (after ++ (percent.script ++ ['%']))) := by
  have hpercent := (rewrites_nil.other isOther_percent).number percent
    (isOther_percent.endsNumber [])
  have hsign := (hpercent.blanks hafter).other (isOther_sign hop)
  exact (hsign.blanks hbefore).number base
    (endsNumber_blanks hbefore ((isOther_sign hop).endsNumber _)) _ (le_refl _)

end

end Formula

namespace Script

open Formula

/-! ## §2 Tokens -/

section

variable {rest : List Char} {tokens : List Token}

theorem cut_blanks {blanks : List Char} (hblanks : AreBlank blanks)
    (h : Cut (blanks ++ rest) tokens) : Cut rest tokens := by
  induction blanks with
  | nil => exact h
  | cons c blanks ih =>
    exact ih (fun d hd => hblanks d (by simp [hd])) (cut_of_blank (hblanks c (by simp)) h)

theorem cut_number (l : Literal) (hrest : EndsNumber rest) (h : Cut (l.script ++ rest) tokens) :
    ∃ others, tokens = .float l.value :: others ∧ Cut rest others := by
  obtain ⟨c, tail, hscript, hdigit, hlex⟩ := lexToken_script l hrest
  rw [hscript, List.cons_append] at h
  have hcomment : ¬ OpensComment c (tail ++ rest) := by
    rintro ⟨rfl, -⟩
    exact absurd hdigit (by decide)
  exact (cut_token_iff (isGap_of_isNamePart (by simp [isNamePart, hdigit])) hcomment
    (hlex 0)).mp h

theorem cut_variable (x : Identifier) (hrest : ∀ c ∈ rest.head?, isNamePart c = false)
    (h : Cut (variableName x.1 ++ rest) tokens) :
    ∃ others, tokens = .word (String.ofList (variableName x.1)) :: others ∧ Cut rest others := by
  obtain ⟨c, tail, hname, hstart, hlex⟩ :=
    lexToken_name (isIdentifier_variableName x) (by rfl) hrest
  rw [hname] at h hlex
  have hcomment : ¬ OpensComment c (tail ++ rest) := by
    rintro ⟨rfl, -⟩
    exact absurd hstart (by decide)
  rw [hname]
  exact (cut_token_iff (isGap_of_isNamePart (isNamePart_of_isNameStart hstart)) hcomment
    (hlex 0)).mp h

/-- In front of a blank or a number, and at the end, these signs are tokens of their own. -/
theorem cut_sign (c : Char) (symbol : Symbol) (hc : (c, symbol) ∈ sumSigns)
    (hrest : ∀ d ∈ rest.head?, isBlank d = true ∨ isNamePart d = true)
    (h : Cut (c :: rest) tokens) :
    ∃ others, tokens = .symbol symbol :: others ∧ Cut rest others := by
  have hcases := hc
  rw [sumSigns] at hcases
  have hlex : lexToken 0 c rest = lexSign (c :: rest) := by fin_cases hcases <;> rfl
  have hgap : isGap c = false := by fin_cases hcases <;> rfl
  have hcomment : ¬ OpensComment c rest := by
    rintro ⟨rfl, -⟩
    simp at hcases
  have hsign := lexSign_alone hc fun d hd hmem => by
    have hd := hrest d hd
    fin_cases hmem <;> exact absurd hd (by decide)
  exact (cut_token_iff hgap hcomment (hlex.trans hsign)).mp h

end

/-- The number of a script begins with a digit. -/
theorem head_script (l : Literal) (rest : List Char) :
    ∀ c ∈ (l.script ++ rest).head?, isNamePart c = true := by
  obtain ⟨c, tail, hscript, hdigit, -⟩ := lexToken_script l endsNumber_nil
  rw [hscript]
  rintro d ⟨rfl⟩
  simp [isNamePart, hdigit]

theorem head_blanks {blanks rest : List Char} (hblanks : AreBlank blanks)
    (hrest : ∀ c ∈ rest.head?, isNamePart c = true) :
    ∀ c ∈ (blanks ++ rest).head?, isBlank c = true ∨ isNamePart c = true := by
  cases blanks with
  | nil => exact fun c hc => .inr (hrest c hc)
  | cons b blanks =>
    rintro c ⟨rfl⟩
    exact .inl (hblanks _ (by simp))

/-- The tokens of a percentage: two operands in a row, or an operator at the end. -/
inductive PercentTokens : List Token → Prop
  | phrase (percent base : Literal) (word : Identifier) :
      PercentTokens [.float percent.value, .symbol .modulo,
        .word (String.ofList (variableName word.1)), .float base.value]
  | change (base percent : Literal) {op : ArithmeticOp} (hop : op = .add ∨ op = .subtract) :
      PercentTokens [.float base.value, .symbol op.symbol, .float percent.value, .symbol .modulo]

theorem isIdentifier_word {form : PercentForm} {word : List Char} (h : form.word? = some word) :
    IsIdentifier word := by
  cases form <;> cases h <;>
    exact ⟨rfl, by simp [isNamePart, isNameStart, isAsciiLetter, isLowered, isCapital]⟩

theorem operator_of_sign {form : PercentForm} {sign : Char} (h : form.sign? = some sign) :
    ∃ op : ArithmeticOp, (op = .add ∨ op = .subtract) ∧ sign = op.sign := by
  cases form <;> cases h
  · exact ⟨.add, .inl rfl, rfl⟩
  · exact ⟨.subtract, .inr rfl, rfl⟩

section

variable {before after : List Char} {tokens : List Token} (hbefore : AreBlank before)
  (hafter : AreBlank after)

include hbefore hafter

theorem percentTokens_phrase (percent base : Literal) (word : Identifier) (hsome : after ≠ [])
    (htokens : Cut (percent.script ++ '%'
      :: (before ++ (variableName word.1 ++ (after ++ base.script)))) tokens) :
    PercentTokens tokens := by
  have hmark : ∀ c ∈ (variableName word.1 ++ (after ++ base.script)).head?,
      isNamePart c = true := by
    rintro c ⟨rfl⟩
    decide
  have hends : ∀ c ∈ (after ++ base.script).head?, isNamePart c = false := by
    obtain ⟨c, tail, rfl⟩ := List.exists_cons_of_ne_nil hsome
    rintro d ⟨rfl⟩
    exact isNamePart_of_isBlank (hafter _ (by simp))
  obtain ⟨_, rfl, hsign⟩ := cut_number percent (isOther_percent.endsNumber _) htokens
  obtain ⟨_, rfl, hname⟩ := cut_sign '%' .modulo (by simp [sumSigns]) (head_blanks hbefore hmark)
    hsign
  obtain ⟨_, rfl, hbase⟩ := cut_variable word hends (cut_blanks hbefore hname)
  rw [← List.append_nil base.script] at hbase
  obtain ⟨_, rfl, hend⟩ := cut_number base endsNumber_nil (cut_blanks hafter hbase)
  cases hend
  exact .phrase percent base word

theorem percentTokens_change (base percent : Literal) {op : ArithmeticOp}
    (hop : op = .add ∨ op = .subtract)
    (htokens : Cut (base.script ++ (before ++ op.sign :: (after ++ (percent.script ++ ['%']))))
      tokens) : PercentTokens tokens := by
  have hmem : (op.sign, op.symbol) ∈ sumSigns := by
    rcases hop with rfl | rfl <;> decide
  have hother : IsOther op.sign := isOther_sign (by rcases hop with rfl | rfl <;> decide)
  obtain ⟨_, rfl, hgap⟩ := cut_number base (endsNumber_blanks hbefore (hother.endsNumber _)) htokens
  obtain ⟨_, rfl, hpercent⟩ := cut_sign op.sign op.symbol hmem
    (head_blanks hafter (head_script percent _)) (cut_blanks hbefore hgap)
  obtain ⟨_, rfl, hmark⟩ := cut_number percent (isOther_percent.endsNumber [])
    (cut_blanks hafter hpercent)
  obtain ⟨_, rfl, hend⟩ := cut_sign '%' .modulo (by simp [sumSigns]) (by simp) hmark
  cases hend
  exact .change base percent hop

end

/-- What spells a percentage has these tokens in the notation of scripts, or none. -/
theorem percentTokens_of_spells {text : List Char} {q : Percentage} {tokens : List Token}
    (h : Percentage.Spells text q) (htokens : tokenize (toScript text) = .ok tokens) :
    PercentTokens tokens := by
  rw [tokenize_iff] at htokens
  cases h with
  | @phrase form word before after percent base hword _ _ hbefore _ hafter hsome =>
    rw [toScript_phrase hbefore hafter percent base ⟨word, isIdentifier_word hword⟩ hsome]
      at htokens
    exact percentTokens_phrase hbefore hafter percent base ⟨word, isIdentifier_word hword⟩ hsome
      htokens
  | @change form sign before after base percent hsign _ _ hbefore hafter =>
    obtain ⟨op, hop, rfl⟩ := operator_of_sign hsign
    rw [toScript_change hbefore hafter base percent (by rcases hop with rfl | rfl <;> decide)]
      at htokens
    exact percentTokens_change hbefore hafter base percent hop htokens

/-! ## §3 Formulas -/

open SumSheet.Script.Parser

namespace Grammar

/-- Behind a tree nothing may be left. -/
theorem formula_trailing {t : Arithmetic} (hlevels : t.levels ≤ expressionLevels) {next : Token}
    {rest : List Token} (hrest : EndsExpr (next :: rest)) :
    formula (t.write tokenAlphabet ++ next :: rest) = .error (.unexpected next) := by
  have hexpr := (reads_tree t).1 expressionLevels (next :: rest) hrest
  rw [answer_of_le hlevels] at hexpr
  rw [formula, bind_ok hexpr, bind_ok (peek_eq _)]
  rfl

section

variable {mode : Mode} {inner : Grammar} {outer : Nat} {left : Expr} {op : ArithmeticOp}
  (hbinds : (Operator.plain op.operator).bindsIn outer = true)

include hbinds

/-- An operator needs a second operand. -/
theorem operatorsOf_last :
    operatorsOf mode inner outer left [.symbol op.symbol] = .error .unexpectedEnd := by
  rw [operatorsOf, bind_ok (peek_eq _)]
  simp only [List.head?_cons, Option.bind_some, ofToken?_symbol, hbinds, Bool.not_true,
    Bool.false_eq_true, if_false]
  rw [bind_ok (skip_cons _ _)]
  rfl

/-- What fails within the second operand fails as a whole. -/
theorem operatorsOf_error {right : Expr} {next : ArithmeticOp} {tokens rest : List Token}
    {e : ParseError}
    (hright : operandOf mode inner tokens = .ok (right, .symbol next.symbol :: rest))
    (hnext : (Operator.plain next.operator).bindsIn (Operator.plain op.operator).precedence = true)
    (herror : inner.operators (Operator.plain op.operator).precedence right
      (.symbol next.symbol :: rest) = .error e) :
    operatorsOf mode inner outer left (.symbol op.symbol :: tokens) = .error e := by
  rw [operatorsOf, bind_ok (peek_eq _)]
  simp only [List.head?_cons, Option.bind_some, ofToken?_symbol, hbinds, Bool.not_true,
    Bool.false_eq_true, if_false]
  rw [bind_ok (skip_cons _ _), bind_ok hright, bind_ok (peek_eq _)]
  simp only [List.head?_cons, Option.bind_some, ofToken?_symbol, hnext, if_true]
  exact bind_error herror

end

theorem formula_phrase (percent base : Literal) (word : Identifier) :
    formula [.float percent.value, .symbol .modulo,
        .word (String.ofList (variableName word.1)), .float base.value]
      = .error (.unexpected (.float base.value)) := by
  have hbase : EndsExpr [.float base.value] := by
    constructor
    · constructor <;> simp [Lacks]
    · rfl
  have hlevels : (Arithmetic.binary .modulo (.literal percent) (.var word)).levels
      ≤ expressionLevels := by
    simp [Arithmetic.levels, Arithmetic.depth, Arithmetic.wrapDepth, Arithmetic.isCompound,
      expressionLevels]
  exact formula_trailing hlevels hbase

/-- A number in front of an operator is an operand, and no level is needed for it. -/
theorem operand_literal (l : Literal) (op : ArithmeticOp) (levels : Nat) (rest : List Token) :
    (within .formula levels).operand (.float l.value :: .symbol op.symbol :: rest)
      = .ok (.float l.value, .symbol op.symbol :: rest) :=
  ((reads_tree (.literal l)).2 levels _ (endsOperand_operator op rest)).trans
    (answer_of_le (Nat.zero_le levels) _)

theorem formula_change (base percent : Literal) {op : ArithmeticOp}
    (hop : op = .add ∨ op = .subtract) :
    formula [.float base.value, .symbol op.symbol, .float percent.value, .symbol .modulo]
      = .error .unexpectedEnd := by
  have hbinds : (Operator.plain op.operator).bindsIn 1 = true := by
    rcases hop with rfl | rfl <;> rfl
  have hnext : (Operator.plain ArithmeticOp.modulo.operator).bindsIn
      (Operator.plain op.operator).precedence = true := by
    rcases hop with rfl | rfl <;> rfl
  -- the percent sign binds tighter than the sign, and has no second operand
  have hlast : (within .formula 254).operators (Operator.plain op.operator).precedence
      (.float percent.value) [.symbol ArithmeticOp.modulo.symbol] = .error .unexpectedEnd := by
    rw [operators_within]
    exact operatorsOf_last hnext
  have hoperators : (within .formula 255).operators 1 (.float base.value)
      [.symbol op.symbol, .float percent.value, .symbol .modulo] = .error .unexpectedEnd := by
    have hpercent := operand_literal percent .modulo 255 []
    rw [operand_within] at hpercent
    rw [operators_within]
    exact operatorsOf_error hbinds hpercent hnext hlast
  have hexpr : (within .formula expressionLevels).expr [.float base.value, .symbol op.symbol,
      .float percent.value, .symbol .modulo] = .error .unexpectedEnd := by
    rw [expr_within]
    exact (bind_ok (operand_literal base op 255 _)).trans hoperators
  exact bind_error hexpr

/-- **No formula has the tokens of a percentage.** -/
theorem formula_percentTokens {tokens : List Token} (h : PercentTokens tokens) :
    ∃ e, formula tokens = .error e := by
  cases h with
  | phrase percent base word => exact ⟨_, formula_phrase percent base word⟩
  | change base percent hop => exact ⟨_, formula_change base percent hop⟩

end Grammar

/-- **What spells a percentage is malformed as an expression.** -/
theorem parseFormula_of_spells {text : List Char} {q : Percentage} (h : Percentage.Spells text q) :
    ∃ cause, parseFormula (toScript text) = .error cause := by
  rw [parseFormula, parseText]
  cases htokens : tokenize (toScript text) with
  | error e => exact ⟨.lex e, rfl⟩
  | ok tokens =>
    obtain ⟨e, he⟩ := Grammar.formula_percentTokens (percentTokens_of_spells h htokens)
    refine ⟨e, ?_⟩
    show (formula tokens).map (·.1) = .error e
    rw [he]
    rfl

end Script

open Script

theorem Script.Program.evaluate_percentage (p : Program) (scope : Scope) {text : List Char}
    {x : Float} (h : percentageValue? text = some x) :
    ∃ cause, p.evaluate text scope = .error (.malformed cause) := by
  obtain ⟨q, hread, -⟩ := Option.map_eq_some_iff.mp h
  obtain ⟨cause, hcause⟩ := parseFormula_of_spells (Percentage.spells_of_read? hread)
  exact ⟨cause, by rw [evaluate, hcause]⟩

/-! ## §4 Lines -/

/-- The step of an expression that is read as a percentage in words only after it has failed. -/
def lateExpressionStep (evaluator : Evaluator) (scope : Scope) (id : Nat) (text : List Char) :
    Step :=
  match evaluator text scope with
  | .ok x => ⟨⟨id, none, .value x⟩, scope, none⟩
  | .error e =>
    match percentageValue? text with
    | some x => ⟨⟨id, none, .value x⟩, scope, none⟩
    | none =>
      ⟨⟨id, none, .failure .invalidExpression⟩, scope,
        some ("line " ++ toString id ++ ": expression failed: " ++ e.message)⟩

/-- The step of a line, if its expression is read as a percentage only after it has failed. -/
def lateLineStep (evaluator : Evaluator) (scope : Scope) (line : Line) : Step :=
  match normalize line.text.toList with
  | [] => ⟨⟨line.id, none, .blank⟩, scope, none⟩
  | text =>
    match classify text with
    | .assignment name right => assignmentStep evaluator scope line.id name right
    | .expression text => lateExpressionStep evaluator scope line.id text

/-- The order matters at most where a percentage is an expression of another value. -/
theorem lateExpressionStep_eq {evaluator : Evaluator} {scope : Scope} {text : List Char}
    (h : ∀ x, percentageValue? text = some x → ∃ e, evaluator text scope = .error e) (id : Nat) :
    lateExpressionStep evaluator scope id text = expressionStep evaluator scope id text := by
  cases hvalue : percentageValue? text with
  | none =>
    cases hresult : evaluator text scope <;>
      simp only [lateExpressionStep, expressionStep, hvalue, hresult]
  | some x =>
    obtain ⟨e, he⟩ := h x hvalue
    simp only [lateExpressionStep, expressionStep, hvalue, he]

theorem lateLineStep_eq (p : Program) (scope : Scope) (line : Line) :
    lateLineStep p.evaluate scope line = lineStep p.evaluate scope line := by
  have hmalformed (text : List Char) (x : Float) (h : percentageValue? text = some x) :
      ∃ e, p.evaluate text scope = .error e := by
    obtain ⟨cause, hcause⟩ := p.evaluate_percentage scope h
    exact ⟨_, hcause⟩
  cases hnormal : normalize line.text.toList with
  | nil => simp only [lateLineStep, lineStep, hnormal]
  | cons c cs =>
    simp only [lateLineStep, lineStep, hnormal]
    cases classify (c :: cs) with
    | assignment name right => rfl
    | expression text => exact lateExpressionStep_eq (hmalformed text) line.id

/-- **A percentage in words is never an expression**, whatever functions there are and whatever is
bound. So a line does the same whether it is read as a percentage before or after its evaluation. -/
theorem percentage_malformed (p : Program) (scope : Scope) :
    (∀ text x, percentageValue? text = some x →
        ∃ cause, p.evaluate text scope = .error (.malformed cause))
      ∧ ∀ line, lateLineStep p.evaluate scope line = lineStep p.evaluate scope line :=
  ⟨fun _ _ h => p.evaluate_percentage scope h, lateLineStep_eq p scope⟩

/-- A tenth of fifty, with blanks that are no gaps of a script. -/
theorem percentage_malformed_tenth :
    percentageValue? "10%\u2009of\u2009 50".toList = some 5.0
      ∧ ∃ cause, Program.empty.evaluate "10%\u2009of\u2009 50".toList ∅
        = .error (.malformed cause) := by
  have hvalue : percentageValue? "10%\u2009of\u2009 50".toList = some 5.0 := by decide +kernel
  exact ⟨hvalue, (percentage_malformed Program.empty ∅).1 _ _ hvalue⟩

end SumSheet
