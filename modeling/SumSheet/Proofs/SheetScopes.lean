/-
SumSheet.Proofs.SheetScopes — what an expression of a sheet takes from
the scope of the sheet.

Two things are said. What an evaluation gives depends on the variables
that the expression names (`Program.evaluate_agree`). And if it reports a
variable as missing, then it is one of them, and it is missing
(`Program.evaluate_reported`). Neither depends on the functions of a
script: a function sees its parameters alone, and what is missing inside
of it is a failure of its call.

The first one has exceptions (`evaluate_agree_lookingUp`): `is_def_var`
and `eval`, which look for variables by names that are computed, and
functions called in place, whose bodies see what their callers see. They
find a variable by its name all the same. So even with them the value
depends only on what is bound to which name, and never on the order of
the bindings: calls of all functions are blind to it (`blind_to_order`).

  §1 Calls       — do not see in which order variables are bound.
  §2 Scopes      — that bind every name alike.
  §3 Expressions — in scopes that agree.
  §4 Reports     — of missing variables.
-/
import SumSheet.Proofs.LoadedFunctions
import SumSheet.Proofs.MissingVariables

namespace SumSheet

open Text Script

namespace Script

open Run

/-! ## §1 Calls -/

/-- The computation ends alike on machines on which every name has the same binding. -/
abbrev BlindToOrder {α : Type} (c : Run α) : Prop :=
  Blind (fun _ => False) (fun _ => True) c

theorem blind_runText {level : Level} (hrun : ∀ body, BlindToOrder (level.run body)) (v : Value) :
    BlindToOrder (Program.runText level v) := by
  unfold Program.runText
  split
  · split
    · exact .fail _
    · rename_i body _
      intro n₁ n₂ m₁ m₂ hm
      rcases hrun body n₁ n₂ { m₁ with self := none } { m₂ with self := none }
        { hm with self := rfl } with ⟨_, ⟨⟩, _⟩ | ⟨hresult, halike, hlength⟩
      exact .inr ⟨congrArg (returned "eval") hresult, { halike with self := hm.self }, hlength⟩
  · exact .fail _

/-- What looks for a variable finds it by its name. -/
theorem blind_definesVariable (v : Value) : BlindToOrder (Program.definesVariable v) := by
  unfold Program.definesVariable
  split
  · rename_i name
    refine .ofBindings (f := fun bindings => return Value.bool (binding? bindings name).isSome)
      (fun first second hagree => ?_) fun _ => .pure _
    have hsame : binding? first name = binding? second name :=
      (hagree name trivial).resolve_right fun hlacks => hlacks.1
    rw [hsame]
  · exact .fail _

/-- Parameters in front of the variables of the caller leave their order unseen. -/
theorem blind_inPlace (name : String) (bindings : List Binding) {body : Run Value}
    (h : BlindToOrder body) : BlindToOrder (inPlace name bindings body) := by
  intro n₁ n₂ m₁ m₂ hm
  rcases h n₁ n₂ { m₁ with bindings := bindings ++ m₁.bindings, self := none }
    { m₂ with bindings := bindings ++ m₂.bindings, self := none }
    { hm with bindings := hm.bindings.append bindings, self := rfl } with
    ⟨_, ⟨⟩, _⟩ | ⟨hresult, halike, hlength⟩
  have hbefore : m₁.bindings.length ≤ (bindings ++ m₁.bindings).length := by simp
  obtain ⟨hbindings, hlength'⟩ := hm.bindings.drop halike.bindings (hbefore.trans hlength)
  exact .inr ⟨congrArg (returned name) hresult,
    { halike with bindings := hbindings, self := hm.self }, hlength'⟩

theorem blind_enterAny {run : List Stmt → Run Value} (hrun : ∀ body, BlindToOrder (run body))
    (site : Site) (f : Function) (args : List Value) :
    BlindToOrder (Program.enter run site f args) := by
  cases site with
  | plain => exact .inside _ _ _ _
  | method self => exact .inside _ _ _ _
  | inPlace => exact blind_inPlace _ _ (.bind .tick fun _ _ => hrun f.body)

theorem blind_callOn (p : Program) {level : Level}
    (henter : ∀ site f args, BlindToOrder (level.enter site f args))
    (hrun : ∀ body, BlindToOrder (level.run body)) (site : Site) (name : String)
    (args : List Value) : BlindToOrder (p.callOn level site name args) :=
  RunRelation.rel_callOn (R := blindness (fun _ => False) fun _ => True) level level site name
    args (fun site' name' args' _ => RunRelation.named (henter site') name' args')
    (fun _ => RunRelation.definesFunction p) (fun _ => blind_definesVariable)
    (fun _ => blind_runText hrun)

/-- **No call sees in which order variables are bound.** By induction on the levels that are left:
what `eval` runs, and what a function does, makes calls on the next level. -/
theorem blind_to_order (p : Program) (levels : Nat) (site : Site) (name : String)
    (args : List Value) : BlindToOrder (p.call levels site name args) := by
  induction levels generalizing site name args with
  | zero => exact blind_callOn p (fun _ _ _ => .fail _) (fun _ => .fail _) site name args
  | succ levels ih =>
    have hcallees : (blindness (fun _ => False) fun _ => True).Callees (fun _ _ => True)
        (p.call levels) (p.call levels) := fun site name args _ => ih site name args
    have hrun (body : List Stmt) : BlindToOrder (runAll (p.call levels) body) :=
      RunRelation.rel_runAll hcallees body (usesThrough_true body)
    exact blind_callOn p (blind_enterAny hrun) hrun site name args

/-- An expression has the same value in two scopes that bind every name alike, or fails in both for
the same reason. -/
theorem Program.eval_alike (p : Program) {first second : List Binding} (e : Expr)
    (hagree : ∀ name, binding? first name = binding? second name) :
    p.eval first e = p.eval second e := by
  have hcallees : (blindness (fun _ => False) fun _ => True).Callees (fun _ _ => True)
      (p.call callLevels) (p.call callLevels) :=
    fun site name args _ => blind_to_order p callLevels site name args
  have hblind : BlindToOrder (e.eval (p.call callLevels)) :=
    RunRelation.rel_eval hcallees e e.uses_true
  refine (Blind.eval hblind fun name _ => .inl (hagree name)).resolve_left ?_
  rintro ⟨_, ⟨⟩, _⟩

end Script

/-! ## §2 Scopes -/

namespace Scope

/-- Both scopes bind the same values to the same names, each in an order of its own. -/
def BindsAs (first second : Scope) : Prop :=
  ∀ name, find? first.bindings name = find? second.bindings name

theorem bindsAs_of_perm {first second : Scope} (hdistinct : (first.toList.map (·.1)).Nodup)
    (hperm : first.toList.Perm second.toList) : first.BindsAs second := by
  intro name
  have hdistinct' : (second.toList.map (·.1)).Nodup := (hperm.map _).nodup hdistinct
  refine Option.ext fun x => ?_
  calc find? first.bindings name = some x
      ↔ (name, x) ∈ first.bindings := (mem_iff_find? hdistinct).symm
    _ ↔ (name, x) ∈ second.bindings := hperm.mem_iff
    _ ↔ find? second.bindings name = some x := mem_iff_find? hdistinct'

/-- Every variable in sight has the name of a variable of a sheet. -/
theorem marked_of_mem_sheetBindings {scope : Scope} {b : Binding} (h : b ∈ sheetBindings scope) :
    ∃ name, b.name = String.ofList (Formula.variableName name) := by
  rcases List.mem_append.mp h with h | h
  all_goals
    obtain ⟨bound, -, rfl⟩ := List.mem_map.mp h
    exact ⟨bound.1.toList, rfl⟩

/-- Scopes that bind every name alike put the same variables and the same constants in sight. -/
theorem BindsAs.binding? {first second : Scope} (h : first.BindsAs second) (w : String) :
    Run.binding? (sheetBindings first) w = Run.binding? (sheetBindings second) w := by
  by_cases hmarked : ∃ name, w = String.ofList (Formula.variableName name)
  · obtain ⟨name, rfl⟩ := hmarked
    rw [binding?_marked, binding?_marked, h]
  · have hnone (scope : Scope) : Run.binding? (sheetBindings scope) w = none := by
      refine binding?_eq_none_iff.mpr fun hmem => ?_
      obtain ⟨b, hb, rfl⟩ := List.mem_map.mp hmem
      exact hmarked (marked_of_mem_sheetBindings hb)
    rw [hnone, hnone]

end Scope

/-! ## §3 Expressions -/

namespace Script

/-- The value of an expression depends on what is bound to which name alone. -/
theorem Program.evaluate_bindsAs (p : Program) (text : List Char) {first second : Scope}
    (h : first.BindsAs second) : p.evaluate text first = p.evaluate text second := by
  rw [Program.evaluate, Program.evaluate]
  cases hparse : parseFormula (Formula.toScript text) with
  | error cause => rfl
  | ok e => simp only [p.eval_alike e h.binding?]

/-- **The value of an expression depends on what the scope binds to the names in it**, or, if it
fails, the failure does. Only if it calls a function that looks for variables can other names make a
difference. The order of the bindings makes none. -/
theorem Program.evaluate_agree (p : Program) {text : List Char}
    (htext : ∀ c ∈ text, isCapital c = false) :
    (∀ first second : Scope,
      (∀ name ∈ Formula.names text,
        first.get? (String.ofList name) = second.get? (String.ofList name)) →
      (Formula.LooksUp text → first.BindsAs second) →
      p.evaluate text first = p.evaluate text second)
    ∧ ∀ first second : Scope, (first.toList.map (·.1)).Nodup →
      first.toList.Perm second.toList → p.evaluate text first = p.evaluate text second := by
  constructor
  · intro first second hagree hlooks
    by_cases hlooksUp : Formula.LooksUp text
    · exact p.evaluate_bindsAs text (hlooks hlooksUp)
    · refine p.evaluate_congr hlooksUp fun name hname => ?_
      obtain ⟨called, hmem⟩ := Formula.exists_of_mem_names hname
      rw [← get?_of_mem_pieces htext hmem, ← get?_of_mem_pieces htext hmem]
      exact hagree name hname
  · intro first second hdistinct hperm
    exact p.evaluate_bindsAs text (Scope.bindsAs_of_perm hdistinct hperm)

/-- A variable of the sheet is not the parameter of a function that has its name, and the order of
two variables does not matter. -/
theorem Program.evaluate_agree_parameter :
    ∃ p, compile "fn f(y) { 2 * y }" = .ok p
      ∧ p.evaluate "x + f(3)".toList ((∅ : Scope).set "x" 1)
        = p.evaluate "x + f(3)".toList (((∅ : Scope).set "y" 5).set "x" 1)
      ∧ p.evaluate "x + f(3)".toList (((∅ : Scope).set "x" 1).set "y" 5)
        = p.evaluate "x + f(3)".toList (((∅ : Scope).set "y" 5).set "x" 1) := by
  obtain ⟨p, hscript, -⟩ := exists_of_compiles
    (by decide +kernel : compiles "fn f(y) { 2 * y }" (fun _ => true) = true)
  have hagree := p.evaluate_agree
    (by simp [isCapital] : ∀ c ∈ "x + f(3)".toList, isCapital c = false)
  have hnames : ∀ name ∈ Formula.names "x + f(3)".toList,
      ((∅ : Scope).set "x" 1).get? (String.ofList name)
        = (((∅ : Scope).set "y" 5).set "x" 1).get? (String.ofList name) := by
    rw [(by decide +kernel : Formula.names "x + f(3)".toList = [['x'], ['f']])]
    decide +kernel
  have hlooks : ¬ Formula.LooksUp "x + f(3)".toList := by decide +kernel
  have hdistinct : ((((∅ : Scope).set "x" 1).set "y" 5).toList.map (·.1)).Nodup := by decide +kernel
  have hperm : (((∅ : Scope).set "x" 1).set "y" 5).toList.Perm
      (((∅ : Scope).set "y" 5).set "x" 1).toList := List.Perm.swap ("y", 5) ("x", 1) []
  exact ⟨p, hscript, hagree.1 _ _ hnames fun h => absurd h hlooks, hagree.2 _ _ hdistinct hperm⟩

/-- A function that looks for a variable finds one that the expression does not name, and so does
one that is called in place. -/
theorem Program.evaluate_agree_lookingUp :
    (¬ ∀ (p : Program) (text : List Char) (first second : Scope),
      (∀ c ∈ text, isCapital c = false) →
      (∀ name ∈ Formula.names text,
        first.get? (String.ofList name) = second.get? (String.ofList name)) →
      p.evaluate text first = p.evaluate text second)
    ∧ ¬ ∀ (p : Program) (text : List Char) (first second : Scope),
      (∀ c ∈ text, isCapital c = false) →
      (∀ name ∈ Formula.names text,
        first.get? (String.ofList name) = second.get? (String.ofList name)) →
      (∀ word ∈ ["is_def_var", "eval"], word.toList ∉ Formula.names text) →
      p.evaluate text first = p.evaluate text second := by
  constructor
  · intro h
    let text := "len(\"\" + is_def_var(\"a\" + \"b\"))".toList
    have hnames : ∀ name ∈ Formula.names text,
        (∅ : Scope).get? (String.ofList name)
          = ((∅ : Scope).set "av_b" 1).get? (String.ofList name) := by
      rw [(by decide +kernel :
        Formula.names text = ["len".toList, "is_def_var".toList, ['a'], ['b']])]
      decide +kernel
    have hfirst : (Program.empty.evaluate text ∅).toOption.map Number.display = some "5" := by
      decide +kernel
    have hsecond : (Program.empty.evaluate text ((∅ : Scope).set "av_b" 1)).toOption.map
        Number.display = some "4" := by
      decide +kernel
    rw [h Program.empty text ∅ ((∅ : Scope).set "av_b" 1) (by simp [text, isCapital]) hnames,
      hsecond] at hfirst
    exact absurd hfirst (by decide)
  · intro h
    let text := "f!(1)".toList
    have htext : Formula.names text = [['f']] := by decide +kernel
    have hnames : ∀ name ∈ Formula.names text,
        ((∅ : Scope).set "x" 5).get? (String.ofList name)
          = ((∅ : Scope).set "x" 6).get? (String.ofList name) := by
      rw [htext]
      decide +kernel
    obtain ⟨p, -, hvalues⟩ := exists_of_compiles
      (by decide +kernel : compiles "fn v_f(a) { v_x + a }" (fun p =>
        decide ((p.evaluate text ((∅ : Scope).set "x" 5)).toOption.map Number.display = some "6"
          ∧ (p.evaluate text ((∅ : Scope).set "x" 6)).toOption.map Number.display
            = some "7")) = true)
    obtain ⟨hfirst, hsecond⟩ := of_decide_eq_true hvalues
    rw [h p text ((∅ : Scope).set "x" 5) ((∅ : Scope).set "x" 6) (by simp [text, isCapital]) hnames
      (by rw [htext]; decide +kernel), hsecond] at hfirst
    exact absurd hfirst (by decide)

end Script

/-! ## §4 Reports -/

/-- The variable that an evaluation reports as missing, if it does. -/
def reported? : Except EvalError Float → Option String
  | .error (.unknownVariable name) => some name
  | _ => none

theorem reported?_eq_some_iff {r : Except EvalError Float} {name : String} :
    reported? r = some name ↔ r = .error (.unknownVariable name) := by
  unfold reported?
  split
  · simp
  · rename_i hother
    exact ⟨nofun, fun h => absurd h (hother name)⟩

namespace Script

/-- **A report of a missing variable is true**, whatever functions there are: the expression names
the variable, the scope does not bind it, and it is no constant. No call of a function ends with
such a report, so it is never about a variable that is missing inside of one. -/
theorem Program.evaluate_reported (p : Program) {text : List Char}
    (htext : ∀ c ∈ text, isCapital c = false) :
    (∀ (scope : Scope) (name : String),
      p.evaluate text scope = .error (.unknownVariable name) →
      name.toList ∈ Formula.names text ∧ scope.contains name = false
        ∧ ∀ c ∈ constants, c.1 ≠ name)
    ∧ ∀ (levels : Nat) (site : Site) (function : String) (args : List Value) (m : Machine)
      (name : String), (p.call levels site function args m).1
        ≠ .error (.failed (.unknownVariable name)) := by
  constructor
  · intro scope name hreport
    obtain ⟨hnamed, -, hunbound, hconstant⟩ := p.evaluate_missing htext hreport
    exact ⟨hnamed, hunbound, hconstant⟩
  · intro levels site function args m name hreport
    -- What is missing inside a function, called in place or not, is a failure of the call.
    have hreports : Reports (fun _ => False) (p.call levels site function args) :=
      reports_call p levels site function args
    exact ((hreports m).2 name hreport).1

/-- What is missing inside the function is not reported, and a variable of the sheet that begins
like the mark of variables goes by its own name. -/
theorem Program.evaluate_reported_outside :
    ∃ p, compile "fn f(x) { x + y }" = .ok p
      ∧ reported? (p.evaluate "f(1)".toList ∅) = none
      ∧ p.evaluate "v_a + f(1)".toList ∅ = .error (.unknownVariable "v_a")
      ∧ "v_a".toList ∈ Formula.names "v_a + f(1)".toList ∧ (∅ : Scope).contains "v_a" = false
      ∧ ∀ c ∈ constants, c.1 ≠ "v_a" := by
  obtain ⟨p, hscript, hreports⟩ := exists_of_compiles
    (by decide +kernel : compiles "fn f(x) { x + y }" (fun p =>
      reported? (p.evaluate "f(1)".toList ∅) == none
        && reported? (p.evaluate "v_a + f(1)".toList ∅) == some "v_a") = true)
  obtain ⟨hinside, houtside⟩ := Bool.and_eq_true_iff.mp hreports
  have hreport := reported?_eq_some_iff.mp (eq_of_beq houtside)
  have htext : ∀ c ∈ "v_a + f(1)".toList, isCapital c = false := by simp [isCapital]
  exact ⟨p, hscript, eq_of_beq hinside, hreport, (p.evaluate_reported htext).1 ∅ "v_a" hreport⟩

end Script

end SumSheet
