/-
SumSheet.Proofs.ScriptReading — the tokens of arithmetic are read as the
expression they stand for, exactly if there are levels enough.

The parsers of a level refer to those of the level below, and where no
level is left the answer is `tooDeep`. Each lemma says what a parser
answers with any number of levels: its result, if they are as many as
the tokens need, and that refusal if not. Needs add up along the tree to
`Arithmetic.levels`.

Two parsers are followed through the tree at once: `expr`, for what
stands alone or between parentheses, and `operand`, for what stands next
to an operator.

  §1 Expressions — the expression that a tree stands for.
  §2 Parsers     — how single steps of parsers go.
  §3 Answers     — a result or `tooDeep`, by the levels needed.
  §4 One level   — operands and operators, over the parsers below.
  §5 Tokens      — what stands behind a tree, and what it begins with.
  §6 Trees       — `parseFormula_script`.
-/
import Mathlib
import SumSheet.Proofs.ScriptTokens

namespace SumSheet

open Text Script

/-! ## §1 Expressions -/

/-- The expression that a tree stands for. -/
def Arithmetic.expr : Arithmetic → Expr
  | .literal l => .float l.value
  | .var x => .variable (String.ofList (Formula.variableName x.1))
  | .group t => t.expr
  | .negate t => negated t.expr
  | .binary op left right => .binary op.operator left.expr right.expr
  | .call f arg => .call f.name [arg.expr]
  | .callTwo f first second => .call f.name [first.expr, second.expr]

namespace Script

variable {α β : Type}

/-! ## §2 Parsers -/

namespace Parser

theorem bind_ok {p : Parser α} {f : α → Parser β} {a : α} {tokens rest : List Token}
    (h : p tokens = .ok (a, rest)) : (p >>= f) tokens = f a rest := by
  show (p tokens >>= fun r => f r.1 r.2) = f a rest
  rw [h]
  rfl

theorem bind_error {p : Parser α} {f : α → Parser β} {e : ParseError} {tokens : List Token}
    (h : p tokens = .error e) : (p >>= f) tokens = .error e := by
  show (p tokens >>= fun r => f r.1 r.2) = .error e
  rw [h]
  rfl

theorem peek_eq (tokens : List Token) : peek tokens = .ok (tokens.head?, tokens) := rfl

theorem skip_cons (t : Token) (rest : List Token) : skip (t :: rest) = .ok ((), rest) := rfl

theorem accept_self (s : Symbol) (rest : List Token) :
    accept s (.symbol s :: rest) = .ok (true, rest) := by
  simp [accept]

/-- The sign does not come next. -/
def Lacks (s : Symbol) (tokens : List Token) : Prop :=
  tokens.head? ≠ some (.symbol s)

theorem accept_lacks {s : Symbol} {tokens : List Token} (h : Lacks s tokens) :
    accept s tokens = .ok (false, tokens) := by
  cases tokens with
  | nil => rfl
  | cons t rest =>
    cases t with
    | symbol u =>
      have hne : u ≠ s := fun heq => h (by rw [heq]; rfl)
      simp [accept, hne]
    | _ => rfl

theorem expect_self (s : Symbol) (rest : List Token) :
    expect s (.symbol s :: rest) = .ok ((), rest) := by
  rw [expect, bind_ok (accept_self s rest)]
  rfl

/-! ## §3 Answers -/

/-- What a parser with so many levels answers to tokens that need so many. -/
def answer (levels needed : Nat) (result : α × List Token) : Except ParseError (α × List Token) :=
  if needed ≤ levels then .ok result else .error .tooDeep

theorem answer_of_le {levels needed : Nat} (h : needed ≤ levels) (result : α × List Token) :
    answer levels needed result = .ok result :=
  if_pos h

theorem answer_of_lt {levels needed : Nat} (h : levels < needed) (result : α × List Token) :
    answer levels needed result = .error .tooDeep :=
  if_neg (Nat.not_le_of_lt h)

theorem answer_congr {levels needed levels' needed' : Nat}
    (h : needed ≤ levels ↔ needed' ≤ levels') (result : α × List Token) :
    answer levels needed result = answer levels' needed' result :=
  if_congr h rfl rfl

theorem bind_answer {p : Parser α} {f : α → Parser β} {a : α} {r : β × List Token}
    {tokens rest : List Token} {levels needed needed' : Nat}
    (hp : p tokens = answer levels needed (a, rest))
    (hf : f a rest = answer levels needed' r) :
    (p >>= f) tokens = answer levels (max needed needed') r := by
  rcases Nat.lt_or_ge levels needed with hlt | hle
  · rw [answer_of_lt hlt] at hp
    rw [bind_error hp, answer_of_lt (lt_max_of_lt_left hlt)]
  · rw [answer_of_le hle] at hp
    rw [bind_ok hp, hf]
    exact answer_congr (by omega) r

/-- What follows needs no level. -/
theorem bind_answer_ok {p : Parser α} {f : α → Parser β} {a : α} {r : β × List Token}
    {tokens rest : List Token} {levels needed : Nat}
    (hp : p tokens = answer levels needed (a, rest)) (hf : f a rest = .ok r) :
    (p >>= f) tokens = answer levels needed r := by
  rw [bind_answer hp (hf.trans (answer_of_le (Nat.zero_le levels) r).symm), Nat.max_zero]

end Parser

open SumSheet.Script.Parser

namespace Grammar

/-! ## §4 One level -/

/-- What may stand behind an operand: nothing that goes on with it, so no point, no index, no
arguments and no mark in front of arguments. -/
structure EndsOperand (rest : List Token) : Prop where
  period : Lacks .period rest
  bracket : Lacks .openBracket rest
  unit : Lacks .unit rest
  parenthesis : Lacks .openParen rest
  mark : Lacks .not rest

/-- What may stand behind a whole expression: no operator either. -/
structure EndsExpr (rest : List Token) : Prop extends EndsOperand rest where
  operator : rest.head?.bind Operator.ofToken? = none

theorem endsExpr_nil : EndsExpr [] := by
  constructor
  · constructor <;> simp [Lacks]
  · rfl

theorem endsExpr_close (rest : List Token) : EndsExpr (.symbol .closeParen :: rest) := by
  constructor
  · constructor <;> simp [Lacks]
  · rfl

theorem endsExpr_comma (rest : List Token) : EndsExpr (.symbol .comma :: rest) := by
  constructor
  · constructor <;> simp [Lacks]
  · rfl

theorem endsOperand_operator (op : ArithmeticOp) (rest : List Token) :
    EndsOperand (.symbol op.symbol :: rest) := by
  constructor <;> cases op <;> simp [Lacks, ArithmeticOp.symbol]

section

variable {inner : Grammar} {mode : Mode} {levels needed : Nat} {tokens rest : List Token}

theorem linksOf_ends {base : Expr} (h : EndsOperand rest) :
    linksOf inner base rest = .ok ([], rest) := by
  rw [linksOf, bind_ok (accept_lacks h.period)]
  simp only [Bool.false_eq_true, if_false]
  rw [bind_ok (accept_lacks h.bracket)]
  rfl

theorem linked_atom {e : Expr} (hatom : atom mode inner tokens = answer levels needed (e, rest))
    (hrest : EndsOperand rest) : linked mode inner tokens = answer levels needed (e, rest) := by
  rw [linked]
  refine bind_answer_ok hatom ?_
  rw [bind_ok (linksOf_ends hrest)]
  rfl

/-- An operand without a sign in front is its atom. -/
theorem operandOf_atom {e : Expr} (hatom : atom mode inner tokens = answer levels needed (e, rest))
    (hrest : EndsOperand rest) (hminus : Lacks .minus tokens) (hplus : Lacks .plus tokens)
    (hnot : Lacks .not tokens) :
    operandOf mode inner tokens = answer levels needed (e, rest) := by
  rw [operandOf, bind_ok (accept_lacks hminus)]
  simp only [Bool.false_eq_true, if_false]
  rw [bind_ok (accept_lacks hplus)]
  simp only [Bool.false_eq_true, if_false]
  rw [bind_ok (accept_lacks hnot)]
  exact linked_atom hatom hrest

theorem operandOf_minus {e : Expr} (h : inner.operand tokens = answer levels needed (e, rest)) :
    operandOf mode inner (.symbol .minus :: tokens) = answer levels needed (negated e, rest) := by
  rw [operandOf, bind_ok (accept_self .minus tokens)]
  exact bind_answer_ok h rfl

theorem atom_group {e : Expr}
    (h : inner.expr tokens = answer levels needed (e, .symbol .closeParen :: rest)) :
    atom mode inner (.symbol .openParen :: tokens) = answer levels needed (e, rest) := by
  refine bind_answer_ok h ?_
  rw [bind_ok (expect_self .closeParen rest)]
  rfl

/-- The word is the name of a variable or of a function. -/
structure IsOrdinary (w : String) : Prop where
  isCallable : isCallable w = true
  ne_true : w ≠ "true"
  ne_false : w ≠ "false"
  ne_if : w ≠ "if"

theorem callArguments?_none {arguments : Parser (List Expr)} (h : EndsOperand rest) :
    callArguments? arguments rest = .ok (none, rest) := by
  rw [callArguments?, bind_ok (accept_lacks h.unit)]
  simp only [Bool.false_eq_true, if_false]
  rw [bind_ok (accept_lacks h.parenthesis)]
  rfl

theorem inPlaceArguments?_none {arguments : Parser (List Expr)} (h : EndsOperand rest) :
    inPlaceArguments? arguments rest = .ok (none, rest) := by
  unfold inPlaceArguments?
  split
  · exact absurd rfl h.mark
  · exact absurd rfl h.mark
  · rfl

theorem callArguments?_some {arguments : Parser (List Expr)} {args : List Expr}
    (h : arguments tokens = answer levels needed (args, rest)) :
    callArguments? arguments (.symbol .openParen :: tokens)
      = answer levels needed (some args, rest) := by
  have hunit : Lacks .unit (.symbol .openParen :: tokens) := by simp [Lacks]
  rw [callArguments?, bind_ok (accept_lacks hunit)]
  simp only [Bool.false_eq_true, if_false]
  rw [bind_ok (accept_self .openParen tokens)]
  exact bind_answer_ok h rfl

/-- A word is read as a call if there are arguments behind it, and as a variable if not. -/
theorem atom_call {w : String} (hw : IsOrdinary w) {args : List Expr}
    (h : argumentsOf inner tokens = answer levels needed (args, rest)) :
    atom mode inner (.word w :: .symbol .openParen :: tokens)
      = answer levels needed (.call w args, rest) := by
  simp only [atom, hw.ne_true, hw.ne_false, hw.ne_if, hw.isCallable, if_false, if_true]
  exact bind_answer_ok (callArguments?_some h) rfl

theorem atom_variable {w : String} (hw : IsOrdinary w) (hfree : isFreeName w = true)
    (hrest : EndsOperand rest) : atom mode inner (.word w :: rest) = .ok (.variable w, rest) := by
  simp only [atom, hw.ne_true, hw.ne_false, hw.ne_if, hw.isCallable, if_false, if_true]
  rw [bind_ok (callArguments?_none hrest)]
  refine (bind_ok (inPlaceArguments?_none hrest)).trans ?_
  simp only [hfree, if_true]
  rfl

/-- The last of the items up to a closing sign. -/
theorem itemsUpTo_last {item : Parser α} {a : α} (limit : Nat) (hfirst : Lacks .closeParen tokens)
    (h : item tokens = answer levels needed (a, .symbol .closeParen :: rest)) :
    itemsUpTo item .closeParen (limit + 1) tokens = answer levels needed ([a], rest) := by
  have hcomma : Lacks .comma (.symbol .closeParen :: rest) := by simp [Lacks]
  rw [itemsUpTo, bind_ok (accept_lacks hfirst)]
  refine bind_answer_ok h ?_
  rw [bind_ok (accept_lacks hcomma)]
  simp only [Bool.false_eq_true, if_false]
  rw [bind_ok (expect_self .closeParen rest)]
  rfl

/-- An item with others behind it. -/
theorem itemsUpTo_next {item : Parser α} {a : α} {as : List α} {behind : List Token}
    {limit needed' : Nat} (hfirst : Lacks .closeParen tokens)
    (h : item tokens = answer levels needed (a, .symbol .comma :: behind))
    (hrest : itemsUpTo item .closeParen limit behind = answer levels needed' (as, rest)) :
    itemsUpTo item .closeParen (limit + 1) tokens
      = answer levels (max needed needed') (a :: as, rest) := by
  rw [itemsUpTo, bind_ok (accept_lacks hfirst)]
  refine bind_answer h ?_
  rw [bind_ok (accept_self .comma behind)]
  exact bind_answer_ok hrest rfl

/-- No operator comes next. -/
theorem operatorsOf_ends {outer : Nat} {e : Expr} (h : EndsExpr rest) :
    operatorsOf mode inner outer e rest = .ok (e, rest) := by
  rw [operatorsOf, bind_ok (peek_eq rest), h.operator]
  rfl

theorem ofToken?_symbol (op : ArithmeticOp) :
    Operator.ofToken? (.symbol op.symbol) = some (.plain op.operator) := by
  cases op <;> rfl

/-- One operator comes next, and no other behind its operand. -/
theorem operatorsOf_operator {op : ArithmeticOp} {left right : Expr} {needed' : Nat}
    (hright : operandOf mode inner tokens = answer levels needed (right, rest))
    (hrest : EndsExpr rest)
    (hend : inner.operators 1 (.binary op.operator left right) rest
      = answer levels needed' (.binary op.operator left right, rest)) :
    operatorsOf mode inner 1 left (.symbol op.symbol :: tokens)
      = answer levels (max needed needed') (.binary op.operator left right, rest) := by
  have hbinds : (Operator.plain op.operator).bindsIn 1 = true := by cases op <;> rfl
  rw [operatorsOf, bind_ok (peek_eq (.symbol op.symbol :: tokens))]
  simp only [List.head?_cons, Option.bind_some, ofToken?_symbol, hbinds, Bool.not_true,
    Bool.false_eq_true, if_false]
  rw [bind_ok (skip_cons (.symbol op.symbol) tokens)]
  refine bind_answer hright ?_
  rw [bind_ok (peek_eq rest), hrest.operator]
  exact hend

end

/-! ## §5 Tokens -/

theorem grouped_append (tokens rest : List Token) :
    tokenAlphabet.openGroup ++ (tokens ++ tokenAlphabet.close) ++ rest
      = .symbol .openParen :: (tokens ++ .symbol .closeParen :: rest) := by
  rw [List.append_assoc, List.append_assoc]
  rfl

/-- A tree begins with one of these tokens. -/
def beginsExpr : Token → Bool
  | .float _ | .word _ | .symbol .minus | .symbol .openParen => true
  | _ => false

theorem head_tokens (t : Arithmetic) (rest : List Token) :
    ∃ first tail, t.write tokenAlphabet ++ rest = first :: tail ∧ beginsExpr first = true := by
  induction t generalizing rest with
  | binary op left right ihl ihr =>
    rw [Arithmetic.write, List.append_assoc]
    cases hc : left.isCompound with
    | true => exact ⟨_, _, grouped_append _ _, rfl⟩
    | false => exact ihl _
  | _ => exact ⟨_, _, rfl, rfl⟩

theorem lacks_close (t : Arithmetic) (rest : List Token) :
    Lacks .closeParen (t.write tokenAlphabet ++ rest) := by
  obtain ⟨first, tail, heq, hfirst⟩ := head_tokens t rest
  rw [heq, Lacks]
  rintro ⟨rfl⟩
  cases hfirst

theorem isOrdinary_builtin {f : String} (h : IsBuiltin f) : IsOrdinary f := by
  have hall : ∀ b ∈ builtins, isCallable b.name = true ∧ b.name ≠ "true" ∧ b.name ≠ "false"
      ∧ b.name ≠ "if" := by
    intro b hb
    fin_cases hb <;> decide +kernel
  obtain ⟨b, hb, rfl⟩ := h
  obtain ⟨hcallable, htrue, hfalse, hif⟩ := hall b hb
  exact ⟨hcallable, htrue, hfalse, hif⟩

/-- No word with a meaning of its own carries the mark of a variable. -/
theorem unmarked_words (w : String) (hw : w ∈ keywords ++ reservedWords ++ callableWords) :
    w.toList.take 2 ≠ Formula.variableMark := by
  revert w
  simp [keywords, reservedWords, callableWords, Formula.variableMark]

theorem isOrdinary_variable (x : Identifier) :
    IsOrdinary (String.ofList (Formula.variableName x.1))
      ∧ isFreeName (String.ofList (Formula.variableName x.1)) = true := by
  have habsent : String.ofList (Formula.variableName x.1)
      ∉ keywords ++ reservedWords ++ callableWords := by
    intro hmem
    refine unmarked_words _ hmem ?_
    rw [String.toList_ofList]
    rfl
  have hkeyword {w : String} (hw : w ∈ keywords) :
      String.ofList (Formula.variableName x.1) ≠ w := by
    rintro rfl
    exact habsent (by simp [hw])
  simp only [List.mem_append, not_or] at habsent
  have hfree : isFreeName (String.ofList (Formula.variableName x.1)) = true := by
    simp [isFreeName, habsent]
  exact ⟨⟨by rw [isCallable, hfree, Bool.true_or], hkeyword (by decide), hkeyword (by decide),
    hkeyword (by decide)⟩, hfree⟩

/-! ## §6 Trees -/

/-- The grammar of the level below. -/
def below (mode : Mode) : Nat → Grammar
  | 0 => exhausted
  | levels + 1 => within mode levels

theorem within_eq (mode : Mode) (levels : Nat) :
    within mode levels = outer mode (below mode levels) := by
  cases levels <;> rfl

/-- A parser of the level below needs one level more. -/
theorem below_answer (field : Grammar → Parser α) (hfail : field exhausted = fail .tooDeep)
    {mode : Mode} {tokens : List Token} {needed : Nat} {r : α × List Token}
    (h : ∀ levels, field (within mode levels) tokens = answer levels needed r) (levels : Nat) :
    field (below mode levels) tokens = answer levels (1 + needed) r := by
  cases levels with
  | zero =>
    rw [below, hfail, answer_of_lt (by omega)]
    rfl
  | succ levels =>
    rw [below, h levels]
    exact answer_congr (by omega) r

theorem operand_within (mode : Mode) (levels : Nat) :
    (within mode levels).operand = operandOf mode (below mode levels) := by
  rw [within_eq]
  rfl

theorem operators_within (mode : Mode) (levels : Nat) :
    (within mode levels).operators = operatorsOf mode (below mode levels) := by
  rw [within_eq]
  rfl

theorem expr_within (mode : Mode) (levels : Nat) :
    (within mode levels).expr
      = (below mode levels).operand >>= fun left => (below mode levels).operators 1 left := by
  rw [within_eq]
  rfl

theorem operators_below_ends (mode : Mode) (levels : Nat) {e : Expr} {rest : List Token}
    (h : EndsExpr rest) :
    (below mode levels).operators 1 e rest = answer levels 1 (e, rest) := by
  have hwithin (levels : Nat) :
      (within mode levels).operators 1 e rest = answer levels 0 (e, rest) := by
    rw [operators_within, operatorsOf_ends h, answer_of_le (Nat.zero_le levels)]
  exact below_answer (fun g => g.operators 1 e) rfl hwithin levels

/-- An operand that stands alone needs one level more. -/
theorem expr_of_operand {mode : Mode} {tokens rest : List Token} {needed : Nat} {e : Expr}
    (h : ∀ levels, (within mode levels).operand tokens = answer levels needed (e, rest))
    (hrest : EndsExpr rest) (levels : Nat) :
    (within mode levels).expr tokens = answer levels (1 + needed) (e, rest) := by
  have hoperand := below_answer Grammar.operand rfl h levels
  rw [expr_within, bind_answer hoperand (operators_below_ends mode levels hrest)]
  exact answer_congr (by omega) _

/-- A tree without a binary operator at its top is read as an operand, also where it stands
alone. -/
def ReadsPlain (t : Arithmetic) : Prop :=
  ∀ levels rest, EndsOperand rest →
    (within .formula levels).operand (t.write tokenAlphabet ++ rest)
      = answer levels t.depth (t.expr, rest)

def ReadsExpr (t : Arithmetic) : Prop :=
  ∀ levels rest, EndsExpr rest →
    (within .formula levels).expr (t.write tokenAlphabet ++ rest)
      = answer levels t.levels (t.expr, rest)

def ReadsOperand (t : Arithmetic) : Prop :=
  ∀ levels rest, EndsOperand rest →
    (within .formula levels).operand
        (Arithmetic.wrap tokenAlphabet t.isCompound (t.write tokenAlphabet) ++ rest)
      = answer levels (Arithmetic.wrapDepth t.isCompound + t.depth) (t.expr, rest)

section

variable {t : Arithmetic} {rest : List Token} (levels : Nat)

theorem ReadsExpr.below (h : ReadsExpr t) (hrest : EndsExpr rest) :
    (below .formula levels).expr (t.write tokenAlphabet ++ rest)
      = answer levels (1 + t.levels) (t.expr, rest) :=
  below_answer Grammar.expr rfl (fun levels => h levels rest hrest) levels

theorem ReadsOperand.below (h : ReadsOperand t) (hrest : EndsOperand rest) :
    (below .formula levels).operand
        (Arithmetic.wrap tokenAlphabet t.isCompound (t.write tokenAlphabet) ++ rest)
      = answer levels (1 + (Arithmetic.wrapDepth t.isCompound + t.depth)) (t.expr, rest) :=
  below_answer Grammar.operand rfl (fun levels => h levels rest hrest) levels

theorem ReadsPlain.readsExpr (h : ReadsPlain t) : ReadsExpr t := by
  intro levels rest hrest
  rw [expr_of_operand (fun levels => h levels rest hrest.toEndsOperand) hrest, Arithmetic.levels]

/-- What is read where it stands alone is read in parentheses. -/
theorem ReadsExpr.grouped (h : ReadsExpr t) (hrest : EndsOperand rest) :
    (within .formula levels).operand
        (.symbol .openParen :: (t.write tokenAlphabet ++ .symbol .closeParen :: rest))
      = answer levels (2 + t.depth) (t.expr, rest) := by
  rw [operand_within, operandOf_atom (atom_group (h.below levels (endsExpr_close rest))) hrest
    (by simp [Lacks]) (by simp [Lacks]) (by simp [Lacks])]
  exact answer_congr (by rw [Arithmetic.levels]; omega) _

end

theorem readsOperand {t : Arithmetic} (hexpr : ReadsExpr t)
    (hplain : t.isCompound = false → ReadsPlain t) : ReadsOperand t := by
  intro levels rest hrest
  cases hc : t.isCompound with
  | false =>
    rw [Arithmetic.wrap, if_neg Bool.false_ne_true, hplain hc levels rest hrest]
    exact answer_congr (by simp [Arithmetic.wrapDepth]) _
  | true =>
    rw [Arithmetic.wrap, if_pos rfl, grouped_append]
    exact hexpr.grouped levels hrest

/-- A call is read as its name and its arguments. -/
theorem readsPlain_call {t : Arithmetic} {f : String} (hf : IsBuiltin f) {args : List Expr}
    {argTokens : List Token} (htokens : t.write tokenAlphabet = tokenAlphabet.call f ++ argTokens)
    (hexpr : t.expr = .call f args)
    (hargs : ∀ levels rest, items (below .formula levels).expr .closeParen (argTokens ++ rest)
      = answer levels t.depth (args, rest)) : ReadsPlain t := by
  intro levels rest hrest
  rw [operand_within, htokens, hexpr]
  exact operandOf_atom (atom_call (isOrdinary_builtin hf) (hargs levels rest)) hrest
    (by simp [Lacks, tokenAlphabet]) (by simp [Lacks, tokenAlphabet])
    (by simp [Lacks, tokenAlphabet])

theorem reads_tree (t : Arithmetic) : ReadsExpr t ∧ ReadsOperand t := by
  have hboth {t : Arithmetic} (h : ReadsPlain t) : ReadsExpr t ∧ ReadsOperand t :=
    ⟨h.readsExpr, readsOperand h.readsExpr fun _ => h⟩
  induction t with
  | literal l =>
    apply hboth
    intro levels rest hrest
    rw [operand_within]
    exact operandOf_atom rfl hrest (by simp [Lacks, Arithmetic.write, tokenAlphabet])
      (by simp [Lacks, Arithmetic.write, tokenAlphabet])
      (by simp [Lacks, Arithmetic.write, tokenAlphabet])
  | var x =>
    apply hboth
    intro levels rest hrest
    obtain ⟨hordinary, hfree⟩ := isOrdinary_variable x
    rw [operand_within]
    exact operandOf_atom (atom_variable hordinary hfree hrest) hrest
      (by simp [Lacks, Arithmetic.write, tokenAlphabet])
      (by simp [Lacks, Arithmetic.write, tokenAlphabet])
      (by simp [Lacks, Arithmetic.write, tokenAlphabet])
  | group t ih =>
    apply hboth
    intro levels rest hrest
    rw [Arithmetic.write, grouped_append]
    exact ih.1.grouped levels hrest
  | negate t ih =>
    apply hboth
    intro levels rest hrest
    rw [operand_within, Arithmetic.write, List.append_assoc]
    exact operandOf_minus (ih.2.below levels hrest)
  | binary op left right ihl ihr =>
    have hexpr : ReadsExpr (.binary op left right) := by
      intro levels rest hrest
      have hoperators (levels : Nat) :
          (within .formula levels).operators 1 left.expr (.symbol op.symbol
            :: (Arithmetic.wrap tokenAlphabet right.isCompound (right.write tokenAlphabet) ++ rest))
            = answer levels (max (Arithmetic.wrapDepth right.isCompound + right.depth) 1)
              ((Arithmetic.binary op left right).expr, rest) := by
        have hright := ihr.2 levels rest hrest.toEndsOperand
        rw [operand_within] at hright
        rw [operators_within]
        exact operatorsOf_operator hright hrest (operators_below_ends .formula levels hrest)
      rw [Arithmetic.write, List.append_assoc, List.append_assoc, expr_within]
      refine (bind_answer (ihl.2.below levels (endsOperand_operator op _))
        (below_answer (fun g => g.operators 1 left.expr) rfl hoperators levels)).trans
        (answer_congr ?_ _)
      simp only [Arithmetic.levels, Arithmetic.depth]
      omega
    exact ⟨hexpr, readsOperand hexpr (by rintro ⟨⟩)⟩
  | call f arg ih =>
    refine hboth (readsPlain_call (isBuiltin_of_bind f.known) rfl rfl ?_)
    intro levels rest
    rw [List.append_assoc]
    refine (itemsUpTo_last _ (lacks_close arg _) (ih.1.below levels (endsExpr_close rest))).trans
      (answer_congr ?_ _)
    rw [Arithmetic.levels, Arithmetic.depth]
    omega
  | callTwo f first second ihf ihs =>
    refine hboth (readsPlain_call (isBuiltin_of_bind f.known) rfl rfl ?_)
    intro levels rest
    rw [List.append_assoc, List.append_assoc, List.append_assoc]
    obtain ⟨token, tail, htokens, -⟩ := head_tokens first
      (tokenAlphabet.comma ++ (second.write tokenAlphabet ++ (tokenAlphabet.close ++ rest)))
    have hfirst := ihf.1.below levels
      (endsExpr_comma (second.write tokenAlphabet ++ (tokenAlphabet.close ++ rest)))
    have hsecond := itemsUpTo_last tail.length (lacks_close second _)
      (ihs.1.below levels (endsExpr_close rest))
    have hlimit := congrArg List.length htokens
    rw [List.length_cons] at hlimit
    rw [items, hlimit]
    refine (itemsUpTo_next (lacks_close first _) hfirst hsecond).trans (answer_congr ?_ _)
    simp only [Arithmetic.levels, Arithmetic.depth]
    omega

/-- The tokens of a tree are read as its expression. -/
theorem formula_write (t : Arithmetic) :
    formula (t.write tokenAlphabet) = answer expressionLevels t.levels (t.expr, []) := by
  have hexpr := (reads_tree t).1 expressionLevels [] endsExpr_nil
  rw [List.append_nil] at hexpr
  exact bind_answer_ok hexpr rfl

end Grammar

/-- The text of a tree in a script is read as its expression, unless it is too deep. -/
theorem parseFormula_script (t : Arithmetic) :
    parseFormula (t.write scriptAlphabet)
      = if t.levels ≤ expressionLevels then .ok t.expr else .error .tooDeep := by
  rw [parseFormula, parseText, tokenize_script]
  show (formula (t.write tokenAlphabet)).map (·.1) = _
  rw [Grammar.formula_write, answer]
  split <;> rfl

end Script

end SumSheet
