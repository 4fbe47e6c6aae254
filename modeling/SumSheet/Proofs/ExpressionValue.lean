/-
SumSheet.Proofs.ExpressionValue — an expression of a sheet has the value
of its tree.

The script into which a tree is put is evaluated on a machine that
counts operations and knows variables by their marked names. What a run
gives is followed through the tree here, and with it the number of its
operations, which is exactly `Arithmetic.operations`. `counted` puts the
two together: the result if the operations stay within the limit, and
the failure that stops the run if they do not. What is known before
the run (`fixed?_of_isKnown`) takes no operations of its own.

  §1 Variables  — a marked name finds what the scope and the constants
                  have for it.
  §2 Functions  — a call of a known function applies it.
  §3 Trees      — `RunsAsTold`, with one lemma for each shape of a tree.
  §4 Evaluators — `evaluate_text`, and that a script's functions make no
                  difference to a tree that does not call them.
-/
import Mathlib
import SumSheet.Proofs.ScriptReading

namespace SumSheet

open Text Script

/-! ## §1 Variables -/

namespace Script

theorem marked_inj {a : String} {x : List Char} :
    String.ofList (Formula.variableName a.toList) = String.ofList (Formula.variableName x)
      ↔ a = String.ofList x := by
  rw [String.ofList_inj, Formula.variableName, Formula.variableName, List.append_cancel_left_eq,
    ← String.ofList_inj, String.ofList_toList]

theorem name_sheetBinding (constant : Bool) (x : List Char) :
    ((·.name == String.ofList (Formula.variableName x)) ∘ sheetBinding constant)
      = fun b => b.1 == String.ofList x := by
  funext b
  rw [Bool.eq_iff_iff]
  simp only [Function.comp_apply, sheetBinding, beq_iff_eq]
  exact marked_inj

theorem lower_constant : ∀ c ∈ constants, lower c.1 = c.1 := by
  decide +kernel

theorem find?_pair (bindings : List (String × Float)) (name : String) :
    bindings.find? (·.1 == name) = (Scope.find? bindings name).map (name, ·) := by
  rw [Scope.find?, Option.map_map]
  cases hfound : bindings.find? (·.1 == name) with
  | none => rfl
  | some b =>
    have hname := List.find?_some hfound
    rw [beq_iff_eq] at hname
    rw [Option.map_some, Function.comp_apply, ← hname]

/-- A scope that does not bind a name leaves the constant of that name in sight. -/
theorem find?_constants {scope : Scope} {name : String}
    (h : Scope.find? scope.bindings name = none) :
    (constants.filter fun c => !scope.contains c.1).find? (·.1 == name)
      = constants.find? (·.1 == name) := by
  rw [List.find?_filter]
  refine List.find?_congr fun c hc => ?_
  cases hname : c.1 == name with
  | false => simp
  | true =>
    rw [beq_iff_eq] at hname
    have hget : scope.get? c.1 = none := by rw [Scope.get?, lower_constant c hc, hname, h]
    simp [Scope.contains, hget]

/-- What the evaluator finds under the marked name of a variable depends on its value in the scope
alone: that value, or else the constant of the name. -/
theorem binding?_marked (scope : Scope) (name : List Char) :
    Run.binding? (sheetBindings scope) (String.ofList (Formula.variableName name))
      = match Scope.find? scope.bindings (String.ofList name) with
        | some x => some (sheetBinding false (String.ofList name, x))
        | none => (constants.find? (·.1 == String.ofList name)).map (sheetBinding true) := by
  rw [Run.binding?, sheetBindings, List.find?_append, List.find?_map, List.find?_map,
    name_sheetBinding, name_sheetBinding, Scope.toList, find?_pair scope.bindings]
  cases hfound : Scope.find? scope.bindings (String.ofList name) with
  | some x => rfl
  | none =>
    rw [find?_constants hfound]
    rfl

theorem binding?_sheetBindings (scope : Scope) (x : Identifier) :
    (Run.binding? (sheetBindings scope) (String.ofList (Formula.variableName x.1))).map (·.value)
      = match Arithmetic.lookUp scope x with
        | .ok value => some (.float value)
        | .error _ => none := by
  rw [binding?_marked, Arithmetic.lookUp, Scope.get?, x.2.lower_eq]
  cases Scope.find? scope.bindings (String.ofList x.1) with
  | some value => rfl
  | none =>
    cases constants.find? (·.1 == String.ofList x.1) with
    | some c => rfl
    | none => rfl

/-! ## §2 Functions -/

theorem apply_unary (f : UnaryFunction) (x : Float) :
    Library.apply f.name [.float x] = .ok (.float (f.apply x)) := by
  simp [Library.apply, Library.matching?, Library.ofSheet?, f.known]

theorem apply_binary (f : BinaryFunction) (x y : Float) :
    Library.apply f.name [.float x, .float y] = .ok (.float (f.apply x y)) := by
  simp [Library.apply, Library.matching?, Library.ofSheet?, f.known]

section

variable {name : String} (hname : name ∉ callableWords)

include hname

/-- Only words that are kept back ask something of their first argument. -/
theorem firstCheck?_eq_none (arity : Nat) : firstCheck? name arity = none := by
  unfold firstCheck?
  split
  · exact absurd (by decide) hname
  · exact absurd (by decide) hname
  · exact absurd (by decide) hname
  · rfl

/-- Any other function is called by its name alone. -/
theorem callFunction_eq_named (p : Program) (level : Level) (site : Site) (args : List Value) :
    p.callFunction level site name args = p.named level site name args := by
  unfold Program.callFunction
  split <;> first | rfl | exact absurd (by decide) hname

theorem library_call_eq_apply (args : List Value) :
    Library.call name args = Run.ofResult (Library.apply name args) := by
  have hprinted : Library.printed? name args = none := by
    unfold Library.printed?
    split <;> first | rfl | exact absurd (by decide) hname
  rw [Library.call, hprinted]

/-- A function that the script does not define is that of the library. -/
theorem call_library {p : Program} (args : List Value) (h : p.find? name args.length = none)
    (levels : Nat) :
    p.call levels .plain name args = Run.ofResult (Library.apply name args) := by
  cases levels <;>
    simp only [Program.call, Program.callOn, callFunction_eq_named hname, Program.named, h,
      Site.self, List.nil_append, library_call_eq_apply hname]

end

/-! What evaluation is for one constructor, so that it need not be unfolded as a whole. -/

section

variable (call : Callee)

theorem eval_float (x : Float) :
    (Expr.float x).eval call = (do Run.tick; return .float x) := rfl

theorem eval_text (s : String) :
    (Expr.text s).eval call = (do Run.tick; return .text s) := rfl

theorem eval_unary (op : UnaryOp) (e : Expr) :
    (Expr.unary op e).eval call
      = (do Run.tick; Run.ofResult (unary op (← e.eval call))) := rfl

theorem eval_binary (op : BinaryOp) (left right : Expr) :
    (Expr.binary op left right).eval call = (do
      Run.tick
      let bindings := (← get).bindings
      match foreseen? op (left.fixed? bindings) (right.fixed? bindings) with
      | some v => return v
      | none =>
        let v ← left.eval call
        let w ← right.eval call
        Run.ofResult (binary op v w)) := rfl

theorem evalAll_nil : evalAll call [] = pure [] := rfl

theorem evalAll_cons (e : Expr) (rest : List Expr) :
    evalAll call (e :: rest) = (do
      let v ← e.eval call
      return v :: (← evalAll call rest)) := rfl

theorem eval_checked (name : String) (args : List Expr) :
    (Expr.call name args).eval call = (do
      Run.tick
      match firstCheck? name args.length with
      | some check => call .plain name (← evalChecked call check true args)
      | none => call .plain name (← evalLate call args)) := rfl

/-- The arguments of a function are evaluated, with a variable in first place last, and then it is
called, unless it asks something of its first argument. -/
theorem eval_call {name : String} (hname : name ∉ callableWords) (args : List Expr) :
    (Expr.call name args).eval call
      = (do Run.tick; call .plain name (← evalLate call args)) := by
  rw [eval_checked, firstCheck?_eq_none hname]

/-- A variable is looked up. -/
theorem eval_of_lookUp? {e : Expr} {look : Run Value} (h : e.lookUp? = some look) :
    e.eval call = (do Run.tick; look) := by
  cases e <;> cases h <;> rfl

end

section

variable {call : Callee} {e : Expr} (rest : List Expr)

theorem evalLate_of_lookUp? {look : Run Value} (h : e.lookUp? = some look) :
    evalLate call (e :: rest) = (do
      Run.tick
      let values ← evalAll call rest
      return (← look) :: values) := by
  cases e <;> cases h <;> rfl

/-- No variable stands in first place: the arguments are evaluated one after the other. -/
theorem evalLate_eq_evalAll (h : e.lookUp? = none) :
    evalLate call (e :: rest) = evalAll call (e :: rest) := by
  cases e <;> first | rfl | cases h

end

/-- There is no order where there is one argument. -/
theorem evalLate_singleton (call : Callee) (e : Expr) :
    evalLate call [e] = (do return [← e.eval call]) := by
  cases hlook : e.lookUp? with
  | none => simp only [evalLate_eq_evalAll _ hlook, evalAll_cons, evalAll_nil, pure_bind]
  | some look =>
    simp only [evalLate_of_lookUp? _ hlook, eval_of_lookUp? _ hlook, evalAll_nil, pure_bind,
      bind_assoc]

end Script

/-! ## §3 Trees -/

namespace Arithmetic

/-- The functions that a tree calls, each with its number of arguments. -/
def calls : Arithmetic → List (String × Nat)
  | literal _ | var _ => []
  | group t | negate t => t.calls
  | binary _ left right => left.calls ++ right.calls
  | call f arg => (f.name, 1) :: arg.calls
  | callTwo f first second => (f.name, 2) :: (first.calls ++ second.calls)

/-- How a run ends at a variable of the sheet that has no value. -/
def unbound (name : String) : Interrupt :=
  .failed (.unknownVariable (String.ofList (Formula.variableName name.toList)))

/-- The result of a run that evaluates a tree. -/
def result (scope : Scope) (t : Arithmetic) : Except Interrupt Value :=
  match t.value scope with
  | .ok x => .ok (.float x)
  | .error name => .error (unbound name)

/-- The operations of a tree with nothing behind it. -/
theorem inTurn_zero (first : Except String Float) (operations : Nat) :
    inTurn first operations 0 = operations := by
  rw [inTurn, ite_self, Nat.add_zero]

/-- A tree that is a number is one literal, also with signs in front of it. -/
theorem expr_of_isNumber {t : Arithmetic} (h : t.isNumber = true) :
    ∃ x, t.expr = .float x ∧ ∀ scope, t.value scope = .ok x := by
  induction t with
  | literal l => exact ⟨l.value, rfl, fun scope => rfl⟩
  | group t ih => exact ih h
  | negate t ih =>
    obtain ⟨x, hexpr, hvalue⟩ := ih h
    refine ⟨-x, by rw [expr, hexpr]; rfl, fun scope => ?_⟩
    rw [value, hvalue]
    rfl
  | var x => cases h
  | binary op left right ihl ihr => cases h
  | call f arg ih => cases h
  | callTwo f first second ihf ihs => cases h

/-- The expression of a tree that is a variable is that variable, and no other expression is one. -/
theorem lookUp?_expr (t : Arithmetic) :
    t.expr.lookUp?
      = t.var?.map fun x => Run.read (String.ofList (Formula.variableName x.1)) := by
  induction t with
  | group t ih => exact ih
  | literal l => rfl
  | var x => rfl
  | negate t ih =>
    show (negated t.expr).lookUp? = none
    cases t.expr <;> rfl
  | binary op left right ihl ihr => rfl
  | call f arg ih => rfl
  | callTwo f first second ihf ihs => rfl

/-- The sign in front of any other tree is an operation of its own. -/
theorem negated_expr {t : Arithmetic} (h : t.isNumber = false) :
    negated t.expr = .unary .negate t.expr := by
  induction t with
  | literal l => cases h
  | group t ih => exact ih h
  | negate t ih =>
    rw [expr, ih h]
    rfl
  | var x => rfl
  | binary op left right ihl ihr => rfl
  | call f arg ih => rfl
  | callTwo f first second ihf ihs => rfl

end Arithmetic

namespace Script

/-- The machine after so many more operations. -/
def Machine.after (m : Machine) (operations : Nat) : Machine :=
  { m with operations := m.operations + operations }

namespace Run

variable {α β : Type}

theorem bind_ok {x : Run α} {f : α → Run β} {a : α} {m m' : Machine} (h : x m = (.ok a, m')) :
    (x >>= f) m = f a m' := by
  show ExceptT.bindCont f (x m).1 (x m).2 = f a m'
  rw [h]
  rfl

theorem bind_error {x : Run α} {f : α → Run β} {i : Interrupt} {m m' : Machine}
    (h : x m = (.error i, m')) : (x >>= f) m = (.error i, m') := by
  show ExceptT.bindCont f (x m).1 (x m).2 = (.error i, m')
  rw [h]
  rfl

/-- What a run of so many operations gives, if this is its result. Beyond the limit it is stopped
where the limit is reached. -/
def counted (m : Machine) (operations : Nat) (result : Except Interrupt α) :
    Except Interrupt α × Machine :=
  if m.operations + operations ≤ operationLimit then (result, m.after operations)
  else (.error (.failed .tooManyOperations), { m with operations := operationLimit })

section

variable {m : Machine} {a b : Nat}

theorem counted_zero (hlimit : m.operations ≤ operationLimit) (r : Except Interrupt α) :
    counted m 0 r = (r, m) :=
  if_pos hlimit

theorem bind_counted {x : Run α} {f : α → Run β} {v : α} {r : Except Interrupt β}
    (hx : x m = counted m a (.ok v))
    (hf : (m.after a).operations ≤ operationLimit → f v (m.after a) = counted (m.after a) b r) :
    (x >>= f) m = counted m (a + b) r := by
  by_cases hlimit : m.operations + a ≤ operationLimit
  · rw [counted, if_pos hlimit] at hx
    rw [bind_ok hx, hf hlimit]
    simp only [counted, Machine.after, Nat.add_assoc]
  · rw [counted, if_neg hlimit] at hx
    rw [bind_error hx, counted, if_neg (by omega)]

theorem bind_counted_error {x : Run α} {f : α → Run β} {i : Interrupt}
    (hx : x m = counted m a (.error i)) : (x >>= f) m = counted m a (.error i) := by
  unfold counted at hx ⊢
  split
  · rename_i hlimit
    exact bind_error (hx.trans (if_pos hlimit))
  · rename_i hlimit
    exact bind_error (hx.trans (if_neg hlimit))

theorem tick_counted (hlimit : m.operations ≤ operationLimit) : tick m = counted m 1 (.ok ()) := by
  rcases Nat.lt_or_eq_of_le hlimit with hlt | heq
  · rw [tick, if_pos hlt]
    exact (if_pos (Nat.succ_le_of_lt hlt)).symm
  · rw [tick, if_neg (by omega), counted, if_neg (by omega), ← heq]

/-- An operation is counted, and then others. -/
theorem bind_tick {f : Unit → Run β} {r : Except Interrupt β}
    (hlimit : m.operations ≤ operationLimit)
    (hf : (m.after 1).operations ≤ operationLimit → f () (m.after 1) = counted (m.after 1) b r) :
    (tick >>= f) m = counted m (1 + b) r :=
  bind_counted (tick_counted hlimit) hf

/-- Counting an operation changes nothing that can be seen. -/
theorem bind_tick_congr {f g : Unit → Run β}
    (h : ∀ m', m'.bindings = m.bindings → f () m' = g () m') : (tick >>= f) m = (tick >>= g) m := by
  by_cases hlimit : m.operations < operationLimit
  · have htick : tick m = (.ok (), { m with operations := m.operations + 1 }) := if_pos hlimit
    rw [bind_ok htick, bind_ok htick]
    exact h _ rfl
  · have htick : tick m = (.error (.failed .tooManyOperations), m) := if_neg hlimit
    rw [bind_error htick, bind_error htick]

/-- A tree is evaluated, and what follows is done with its value, if there is one. -/
theorem bind_result {scope : Scope} {t : Arithmetic} {x : Run Value} {f : Value → Run β}
    {r : Except Interrupt β} (hx : x m = counted m a (t.result scope))
    (hok : ∀ v, t.value scope = .ok v → (m.after a).operations ≤ operationLimit →
      f (.float v) (m.after a) = counted (m.after a) b r)
    (herror : ∀ name, t.value scope = .error name → r = .error (Arithmetic.unbound name)) :
    (x >>= f) m = counted m (Arithmetic.inTurn (t.value scope) a b) r := by
  rw [Arithmetic.result] at hx
  cases hvalue : t.value scope with
  | ok v =>
    rw [hvalue] at hx
    exact bind_counted hx (hok v hvalue)
  | error name =>
    rw [hvalue] at hx
    rw [herror name hvalue]
    exact bind_counted_error hx

/-- Nothing follows but an operation on the value. -/
theorem bind_last {scope : Scope} {t : Arithmetic} {x : Run Value} {f : Value → Run β}
    {r : Except Interrupt β} (hx : x m = counted m a (t.result scope))
    (hok : ∀ v, t.value scope = .ok v → f (.float v) (m.after a) = (r, m.after a))
    (herror : ∀ name, t.value scope = .error name → r = .error (Arithmetic.unbound name)) :
    (x >>= f) m = counted m a r := by
  rw [bind_result (b := 0) hx (fun v hv hlimit => (hok v hv).trans (counted_zero hlimit r).symm)
    herror, Arithmetic.inTurn_zero]

end

theorem lookUp_error {scope : Scope} {x : Identifier} {name : String}
    (h : Arithmetic.lookUp scope x = .error name) : name = String.ofList x.1 := by
  rw [Arithmetic.lookUp] at h
  split at h
  · cases h
  · split at h <;> cases h
    rfl

/-- Reading a variable of the sheet. -/
theorem read_variable {scope : Scope} {m : Machine} (hm : m.bindings = sheetBindings scope)
    (x : Identifier) :
    read (String.ofList (Formula.variableName x.1)) m
      = ((Arithmetic.var x).result scope, m) := by
  have hbinding := binding?_sheetBindings scope x
  rw [read, bind_ok (x := get) (a := m) rfl, hm]
  rw [Arithmetic.result, Arithmetic.value]
  cases hfound : binding? (sheetBindings scope) (String.ofList (Formula.variableName x.1)) with
  | some b =>
    cases hlook : Arithmetic.lookUp scope x with
    | ok value =>
      rw [hfound, hlook] at hbinding
      simp only [Option.map_some, Option.some.injEq] at hbinding
      simp only [hbinding]
      rfl
    | error name =>
      rw [hfound, hlook] at hbinding
      cases hbinding
  | none =>
    cases hlook : Arithmetic.lookUp scope x with
    | ok value =>
      rw [hfound, hlook] at hbinding
      cases hbinding
    | error name =>
      simp only [lookUp_error hlook, Arithmetic.unbound, String.toList_ofList]
      rfl

end Run

open Run

theorem binary_float (op : ArithmeticOp) (x y : Float) :
    Script.binary op.operator (.float x) (.float y) = .ok (.float (op.apply x y)) := by
  cases op <;> rfl

/-- A tree of numbers and constants is known beforehand, by its value. -/
theorem fixed?_of_isKnown {scope : Scope} {t : Arithmetic} (h : t.isKnown scope = true) :
    ∃ x, t.value scope = .ok x ∧ t.expr.fixed? (sheetBindings scope) = some (.float x) := by
  induction t with
  | literal l => exact ⟨l.value, rfl, rfl⟩
  | var x =>
    obtain ⟨hfree, hconstant⟩ : scope.get? (String.ofList x.1) = none
        ∧ constants.any (·.1 == String.ofList x.1) = true := by
      simpa [Arithmetic.isKnown, Scope.contains] using h
    obtain ⟨c, hc⟩ := Option.isSome_iff_exists.mp (List.find?_isSome.mpr
      (List.any_eq_true.mp hconstant))
    refine ⟨c.2, by simp only [Arithmetic.value, Arithmetic.lookUp, hfree, hc], ?_⟩
    rw [Scope.get?, x.2.lower_eq] at hfree
    simp only [Arithmetic.expr, Expr.fixed?, binding?_marked, hfree, hc]
    rfl
  | group t ih => exact ih h
  | negate t ih =>
    obtain ⟨x, hexpr, hvalue⟩ := Arithmetic.expr_of_isNumber (t := .negate t) h
    exact ⟨x, hvalue scope, by rw [hexpr]; rfl⟩
  | binary op left right ihl ihr =>
    obtain ⟨hl, hr⟩ := (Bool.and_eq_true _ _).mp h
    obtain ⟨x, hx, hleft⟩ := ihl hl
    obtain ⟨y, hy, hright⟩ := ihr hr
    refine ⟨op.apply x y, by rw [Arithmetic.value, hx, hy]; rfl, ?_⟩
    rw [Arithmetic.expr, Expr.fixed?, hleft, hright, foreseen?, binary_float]
    rfl
  | call f arg ih => cases h
  | callTwo f first second ihf ihs => cases h

/-- Any other tree is not. -/
theorem fixed?_of_not_isKnown {scope : Scope} {t : Arithmetic} (h : t.isKnown scope = false) :
    t.expr.fixed? (sheetBindings scope) = none := by
  induction t with
  | literal l => cases h
  | var x =>
    rw [Arithmetic.expr, Expr.fixed?, binding?_marked]
    rw [Arithmetic.isKnown, Scope.contains, Scope.get?, x.2.lower_eq] at h
    cases hfound : Scope.find? scope.bindings (String.ofList x.1) with
    | some value => rfl
    | none =>
      rw [hfound] at h
      have hnone : constants.find? (·.1 == String.ofList x.1) = none := by
        rw [List.find?_eq_none]
        simpa using h
      rw [hnone]
      rfl
  | group t ih => exact ih h
  | negate t ih =>
    rw [Arithmetic.expr, Arithmetic.negated_expr h]
    rfl
  | binary op left right ihl ihr =>
    rw [Arithmetic.expr, Expr.fixed?]
    rcases Bool.and_eq_false_iff.mp h with hl | hr
    · rw [ihl hl]
      rfl
    · rw [ihr hr]
      cases left.expr.fixed? (sheetBindings scope) <;> rfl
  | call f arg ih => rfl
  | callTwo f first second ihf ihs => rfl

section

variable {call : Callee} {op : BinaryOp} {left right : Expr} {m : Machine}

/-- An operator that is applied beforehand is a single operation. -/
theorem eval_of_fixed? {v : Value} (h : (Expr.binary op left right).fixed? m.bindings = some v) :
    (Expr.binary op left right).eval call m = (do tick; return v : Run Value) m := by
  rw [Expr.fixed?] at h
  rw [eval_binary]
  refine bind_tick_congr fun m' hm => ?_
  rw [bind_ok (x := get) (a := m') rfl, hm]
  simp only [h]

/-- Any other operator is applied to what its operands give. -/
theorem eval_of_not_fixed? (h : (Expr.binary op left right).fixed? m.bindings = none) :
    (Expr.binary op left right).eval call m = (do
      tick
      let v ← left.eval call
      let w ← right.eval call
      ofResult (binary op v w) : Run Value) m := by
  rw [Expr.fixed?] at h
  rw [eval_binary]
  refine bind_tick_congr fun m' hm => ?_
  rw [bind_ok (x := get) (a := m') rfl, hm]
  simp only [h]

end

/-- The run of the expression of a tree gives the result of the tree, and counts its operations. -/
def RunsAsTold (p : Program) (scope : Scope) (t : Arithmetic) : Prop :=
  ∀ m : Machine, m.bindings = sheetBindings scope → m.operations ≤ operationLimit →
    t.expr.eval (p.call Program.callLevels) m = counted m (t.operations scope) (t.result scope)

namespace RunsAsTold

variable {p : Program} {scope : Scope} {t left right : Arithmetic}

theorem literal (l : Literal) : RunsAsTold p scope (.literal l) := by
  intro m _ hlimit
  rw [Arithmetic.expr, eval_float]
  exact bind_tick (b := 0) hlimit fun hnext => (counted_zero hnext _).symm

theorem var (x : Identifier) : RunsAsTold p scope (.var x) := by
  intro m hm hlimit
  rw [Arithmetic.expr, eval_of_lookUp? _ rfl]
  refine bind_tick (b := 0) hlimit fun hnext => ?_
  rw [counted_zero hnext]
  exact read_variable (m := m.after 1) hm x

theorem negate (h : RunsAsTold p scope t) : RunsAsTold p scope (.negate t) := by
  intro m hm hlimit
  rw [Arithmetic.operations]
  cases hnumber : t.isNumber with
  | true =>
    obtain ⟨x, hexpr, hvalue⟩ := Arithmetic.expr_of_isNumber (t := .negate t) hnumber
    rw [if_pos rfl, hexpr, eval_float, Arithmetic.result, hvalue]
    exact bind_tick (b := 0) hlimit fun hnext => (counted_zero hnext _).symm
  | false =>
    rw [if_neg Bool.false_ne_true, Arithmetic.expr, Arithmetic.negated_expr hnumber, eval_unary]
    apply bind_tick hlimit
    intro hnext
    refine bind_last (h _ hm hnext) ?_ ?_
    · intro v hv
      rw [Arithmetic.result, Arithmetic.value, hv]
      rfl
    · intro name hname
      rw [Arithmetic.result, Arithmetic.value, hname]
      rfl

theorem binary (op : ArithmeticOp) (hleft : RunsAsTold p scope left)
    (hright : RunsAsTold p scope right) : RunsAsTold p scope (.binary op left right) := by
  intro m hm hlimit
  rw [Arithmetic.operations]
  cases hknown : (Arithmetic.binary op left right).isKnown scope with
  | true =>
    obtain ⟨x, hvalue, hfixed⟩ := fixed?_of_isKnown hknown
    rw [← hm] at hfixed
    rw [Arithmetic.isKnown] at hknown
    rw [if_pos hknown, Arithmetic.result, hvalue]
    refine (eval_of_fixed? hfixed).trans ?_
    exact bind_tick (b := 0) hlimit fun hnext => (counted_zero hnext _).symm
  | false =>
    have hfixed := fixed?_of_not_isKnown hknown
    rw [← hm] at hfixed
    rw [Arithmetic.isKnown] at hknown
    rw [if_neg (ne_true_of_eq_false hknown)]
    refine (eval_of_not_fixed? hfixed).trans ?_
    apply bind_tick hlimit
    intro hnext
    refine bind_result (hleft _ hm hnext) ?_ ?_
    · intro v hv hnext
      refine bind_last (hright _ hm hnext) ?_ ?_
      · intro w hw
        rw [Arithmetic.result, Arithmetic.value, hv, hw, binary_float]
        rfl
      · intro name hname
        rw [Arithmetic.result, Arithmetic.value, hv, hname]
        rfl
    · intro name hname
      rw [Arithmetic.result, Arithmetic.value, hname]
      rfl

theorem call {f : UnaryFunction} (hf : p.find? f.name 1 = none) (h : RunsAsTold p scope t) :
    RunsAsTold p scope (.call f t) := by
  intro m hm hlimit
  have hlibrary (x : Float) :=
    call_library f.not_mem_callableWords [.float x] hf Program.callLevels
  rw [Arithmetic.operations, Arithmetic.expr, eval_call _ f.not_mem_callableWords]
  simp only [evalLate_singleton, bind_assoc, pure_bind]
  apply bind_tick hlimit
  intro hnext
  refine bind_last (h _ hm hnext) ?_ ?_
  · intro v hv
    rw [Arithmetic.result, Arithmetic.value, hv, hlibrary, apply_unary]
    rfl
  · intro name hname
    rw [Arithmetic.result, Arithmetic.value, hname]
    rfl

/-- A variable in first place is read behind the second argument. -/
theorem callTwo_var {f : BinaryFunction} {x : Identifier} (hf : p.find? f.name 2 = none)
    (hvar : left.var? = some x) (h : RunsAsTold p scope right) :
    RunsAsTold p scope (.callTwo f left right) := by
  intro m hm hlimit
  have hlibrary (x y : Float) :=
    call_library f.not_mem_callableWords [.float x, .float y] hf Program.callLevels
  rw [Arithmetic.expr, eval_call _ f.not_mem_callableWords,
    evalLate_of_lookUp? _ ((Arithmetic.lookUp?_expr left).trans (by rw [hvar]; rfl)),
    Arithmetic.operations, hvar, Option.isSome_some, if_pos rfl,
    show ∀ n, 2 + n = 1 + (1 + n) by omega]
  simp only [evalAll_nil, evalAll_cons, bind_assoc, pure_bind]
  apply bind_tick hlimit
  intro hnext
  apply bind_tick hnext
  intro hnext
  refine bind_last (h _ hm hnext) ?_ ?_
  · intro w hw
    have hread := read_variable (m := ((m.after 1).after 1).after (right.operations scope)) hm x
    rw [Arithmetic.result, Arithmetic.value] at hread
    rw [Arithmetic.result, Arithmetic.value, hvar]
    simp only [hw]
    cases hlook : Arithmetic.lookUp scope x with
    | ok v =>
      rw [hlook] at hread
      rw [bind_ok hread, hlibrary, apply_binary]
      rfl
    | error name =>
      rw [hlook] at hread
      rw [bind_error hread]
      rfl
  · intro name hname
    rw [Arithmetic.result, Arithmetic.value, hvar]
    simp only [hname]
    rfl

/-- Any other arguments are evaluated one after the other. -/
theorem callTwo {f : BinaryFunction} (hf : p.find? f.name 2 = none) (hvar : left.var? = none)
    (hleft : RunsAsTold p scope left) (hright : RunsAsTold p scope right) :
    RunsAsTold p scope (.callTwo f left right) := by
  intro m hm hlimit
  have hlibrary (x y : Float) :=
    call_library f.not_mem_callableWords [.float x, .float y] hf Program.callLevels
  rw [Arithmetic.expr, eval_call _ f.not_mem_callableWords,
    evalLate_eq_evalAll _ ((Arithmetic.lookUp?_expr left).trans (by rw [hvar]; rfl)),
    Arithmetic.operations, hvar, Option.isSome_none, if_neg Bool.false_ne_true]
  simp only [evalAll_nil, evalAll_cons, bind_assoc, pure_bind]
  apply bind_tick hlimit
  intro hnext
  refine bind_result (hleft _ hm hnext) ?_ ?_
  · intro v hv hnext
    refine bind_last (hright _ hm hnext) ?_ ?_
    · intro w hw
      rw [Arithmetic.result, Arithmetic.value, hvar]
      simp only [hv, hw, hlibrary, apply_binary]
      rfl
    · intro name hname
      rw [Arithmetic.result, Arithmetic.value, hvar]
      simp only [hv, hname]
      rfl
  · intro name hname
    rw [Arithmetic.result, Arithmetic.value, hvar]
    simp only [hname]
    rfl

end RunsAsTold

/-- A tree that calls no function of the script runs as told. -/
theorem runsAsTold_of_calls {p : Program} (scope : Scope) (t : Arithmetic)
    (hcalls : ∀ c ∈ t.calls, p.find? c.1 c.2 = none) : RunsAsTold p scope t := by
  induction t with
  | literal l => exact .literal l
  | var x => exact .var x
  | group t ih => exact ih hcalls
  | negate t ih => exact .negate (ih hcalls)
  | binary op left right ihl ihr =>
    obtain ⟨hleft, hright⟩ := List.forall_mem_append.mp hcalls
    exact .binary op (ihl hleft) (ihr hright)
  | call f arg ih =>
    obtain ⟨hf, harg⟩ := List.forall_mem_cons.mp hcalls
    exact .call hf (ih harg)
  | callTwo f first second ihf ihs =>
    obtain ⟨hf, hargs⟩ := List.forall_mem_cons.mp hcalls
    obtain ⟨hfirst, hsecond⟩ := List.forall_mem_append.mp hargs
    cases hvar : first.var? with
    | some x => exact .callTwo_var hf hvar (ihs hsecond)
    | none => exact .callTwo hf hvar (ihf hfirst) (ihs hsecond)

/-! ## §4 Evaluators -/

theorem eval_ok {p : Program} {bindings : List Binding} {e : Expr} {v : Value} {m : Machine}
    (h : e.eval (p.call Program.callLevels) (Machine.start bindings) = (.ok v, m)) :
    p.eval bindings e = .ok v := by
  rw [Program.eval, Program.run, ExceptT.run, h]

theorem eval_failed {p : Program} {bindings : List Binding} {e : Expr} {cause : Failure}
    {m : Machine}
    (h : e.eval (p.call Program.callLevels) (Machine.start bindings)
      = (.error (.failed cause), m)) :
    p.eval bindings e = .error cause := by
  rw [Program.eval, Program.run, ExceptT.run, h]

/-- A test of a script once it is compiled. -/
def compiles (script : String) (test : Program → Bool) : Bool :=
  match compile script with
  | .ok p => test p
  | .error _ => false

theorem exists_of_compiles {script : String} {test : Program → Bool}
    (h : compiles script test = true) : ∃ p, compile script = .ok p ∧ test p = true := by
  unfold compiles at h
  split at h
  · exact ⟨_, ‹_›, h⟩
  · cases h

/-- A missing variable is reported by its name on the sheet. -/
theorem ofFailure_variable (name : String) :
    EvalError.ofFailure
        (.unknownVariable (String.ofList (Formula.variableName name.toList)))
      = .unknownVariable name := by
  rw [EvalError.ofFailure, String.toList_ofList]
  show EvalError.unknownVariable (String.ofList name.toList) = _
  rw [String.ofList_toList]

/-- The functions of a script make no difference to a tree that does not call them. -/
theorem evaluate_write {p : Program} {t : Arithmetic}
    (hcalls : ∀ c ∈ t.calls, p.find? c.1 c.2 = none) (scope : Scope) :
    p.evaluate t.text scope =
      if t.levels ≤ expressionLevels then
        if t.operations scope ≤ operationLimit then t.outcome scope
        else .error (.failed .tooManyOperations)
      else .error (.malformed .tooDeep) := by
  rw [Program.evaluate, Formula.toScript_text, parseFormula_script]
  by_cases hlevels : t.levels ≤ expressionLevels
  · have hrun := runsAsTold_of_calls scope t hcalls (.start (sheetBindings scope)) rfl
      (Nat.zero_le _)
    rw [counted, show (Machine.start (sheetBindings scope)).operations = 0 from rfl,
      Nat.zero_add] at hrun
    simp only [if_pos hlevels]
    by_cases hoperations : t.operations scope ≤ operationLimit
    · rw [if_pos hoperations, Arithmetic.result] at hrun
      rw [if_pos hoperations, Arithmetic.outcome]
      cases hvalue : t.value scope with
      | ok x =>
        rw [hvalue] at hrun
        simp only [eval_ok hrun]
        rfl
      | error name =>
        rw [hvalue] at hrun
        simp only [eval_failed hrun, ofFailure_variable]
    · rw [if_neg hoperations] at hrun
      simp only [if_neg hoperations, eval_failed hrun]
      rfl
  · simp only [if_neg hlevels]

end Script

/-- **An expression of a sheet has the value of its tree.** Trees beyond the limits of the evaluator
have none, and the error says which limit it is. -/
theorem evaluate_text (t : Arithmetic) (scope : Scope) :
    Program.empty.evaluate t.text scope =
      if t.levels ≤ expressionLevels then
        if t.operations scope ≤ Run.operationLimit then t.outcome scope
        else .error (.failed .tooManyOperations)
      else .error (.malformed .tooDeep) :=
  Script.evaluate_write (fun _ _ => rfl) scope

/-- The maximum of two variables, `max(a, b)`. -/
def maxOfTwo : Arithmetic :=
  .callTwo .max (.var ⟨['a'], by simp [IsIdentifier]; decide⟩)
    (.var ⟨['b'], by simp [IsIdentifier]; decide⟩)

/-- From the left to the right, `a` is the first variable without a value, but `b` is looked up
first. -/
theorem evaluate_maxOfTwo :
    maxOfTwo.text = "max(a, b)".toList
      ∧ maxOfTwo.levels ≤ expressionLevels ∧ maxOfTwo.operations ∅ ≤ Run.operationLimit
      ∧ maxOfTwo.valueInOrder ∅ = .error "a"
      ∧ Program.empty.evaluate maxOfTwo.text ∅ = .error (.unknownVariable "b") := by
  refine ⟨by decide, by decide, by decide, rfl, ?_⟩
  rw [Script.evaluate_write fun _ _ => rfl]
  rfl

end SumSheet
