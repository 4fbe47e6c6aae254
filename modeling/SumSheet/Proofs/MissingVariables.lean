/-
SumSheet.Proofs.MissingVariables — what a report of a missing variable
tells.

An evaluation reports the first variable that it needs and does not find.
Such a report is true (`Program.eval_missing`): the variable is one that
the expression names, and nothing is bound to it. `Reports` says that of
a computation, together with what makes it pass from one computation to
the next: variables in sight stay in sight. A function reports nothing
of the kind. What fails inside of it is a failure of the call.

An assignment that fails is told by this report from one that is wrong.
The report is about the first failure, which need not be the only one.
So it does not tell that binding variables is all that is missing
(`assignment_otherFailure`). It tells that binding them changes something:
the evaluation then gets further (`assignment_fails`).

  §1 Names        — the variables in sight.
  §2 Computations — that report missing variables truly.
  §3 Calls        — never report one.
  §4 Expressions  — what is missing, and what a larger scope changes.
  §5 Assignments  — and how they fail.
-/
import SumSheet.Proofs.Dependents

namespace SumSheet

open Text Script

namespace Script

open Run

/-! ## §1 Names -/

/-- The names of the variables in sight, the innermost first. -/
def namesOf (bindings : List Binding) : List String :=
  bindings.map (·.name)

theorem binding?_eq_none_iff {bindings : List Binding} {name : String} :
    binding? bindings name = none ↔ name ∉ namesOf bindings := by
  simp [binding?, namesOf]

theorem namesOf_rebind (name : String) (value : Value) (bindings : List Binding) :
    namesOf (rebind name value bindings) = namesOf bindings := by
  induction bindings with
  | nil => rfl
  | cons b rest ih =>
    rw [rebind_cons]
    split
    · rfl
    · exact congrArg (b.name :: ·) ih

/-! ## §2 Computations -/

/-- The computation takes no variable out of sight, and if it ends for want of one, then it is one
of those that are read, and it was not in sight. -/
def Reports {α : Type} (reads : String → Prop) (c : Run α) : Prop :=
  ∀ m, namesOf m.bindings <:+ namesOf (c m).2.bindings
    ∧ ∀ name, (c m).1 = .error (.failed (.unknownVariable name)) →
      reads name ∧ binding? m.bindings name = none

namespace Reports

variable {reads : String → Prop} {α β : Type}

theorem bind {c : Run α} {f : α → Run β} (hc : Reports reads c)
    (hf : ∀ a, Yields c a → Reports reads (f a)) : Reports reads (c >>= f) := by
  intro m
  obtain ⟨hnames, hmissing⟩ := hc m
  cases h : c m with
  | mk r m' =>
    rw [h] at hnames hmissing
    cases r with
    | error i =>
      rw [bind_error h]
      exact ⟨hnames, fun name hi => hmissing name (congrArg Except.error (Except.error.inj hi))⟩
    | ok a =>
      rw [bind_ok h]
      obtain ⟨hnames', hmissing'⟩ := hf a ⟨m, m', h⟩ m'
      refine ⟨hnames.trans hnames', fun name hi => ?_⟩
      obtain ⟨hreads, hnone⟩ := hmissing' name hi
      rw [binding?_eq_none_iff] at hnone ⊢
      exact ⟨hreads, fun hmem => hnone (hnames.subset hmem)⟩

theorem pure (a : α) : Reports reads (pure a : Run α) :=
  fun _ => ⟨List.suffix_rfl, nofun⟩

theorem interrupt {i : Interrupt} (h : ∀ name, i ≠ .failed (.unknownVariable name)) :
    Reports reads (throw i : Run α) :=
  fun _ => ⟨List.suffix_rfl, fun name hi => absurd (Except.error.inj hi) (h name)⟩

theorem fail {cause : Failure} (h : ∀ name, cause ≠ .unknownVariable name) :
    Reports reads (fail cause : Run α) :=
  interrupt fun name hi => h name (Interrupt.failed.inj hi)

theorem tick : Reports reads tick := by
  intro m
  unfold Run.tick
  split
  · exact ⟨List.suffix_rfl, nofun⟩
  · exact ⟨List.suffix_rfl, nofun⟩

theorem ofBindings {f : List Binding → Run α} (hf : ∀ bindings, Reports reads (f bindings)) :
    Reports reads (do f (← get).bindings) := by
  intro m
  rw [bind_ok (x := get) (a := m) rfl]
  exact hf m.bindings m

/-- What is done with a variable, which must be there. -/
theorem ofBinding {name : String} (hname : reads name) {f : Option Binding → Run α}
    (hnone : f none = Run.fail (.unknownVariable name)) (hf : ∀ b, Reports reads (f (some b))) :
    Reports reads (do f (binding? (← get).bindings name)) := by
  intro m
  rw [bind_ok (x := get) (a := m) rfl]
  cases hbinding : binding? m.bindings name with
  | some b => exact hf b m
  | none =>
    rw [hnone]
    refine ⟨List.suffix_rfl, fun other hother => ?_⟩
    cases hother
    exact ⟨hname, hbinding⟩

theorem read {name : String} (hname : reads name) : Reports reads (read name) := by
  rw [read_eq]
  exact ofBinding hname rfl fun _ => pure _

theorem declare (name : String) (value : Value) (constant : Bool) :
    Reports reads (declare name value constant) :=
  fun _ => ⟨List.suffix_cons _ _, nofun⟩

theorem write {name : String} (hname : reads name) (value : Value) :
    Reports reads (write name value) := by
  rw [write_eq]
  refine ofBinding hname rfl fun b => ?_
  rw [writeFound]
  split
  · exact fail (by simp)
  · intro m
    refine ⟨?_, by rintro _ ⟨⟩⟩
    show namesOf m.bindings <:+ namesOf (Run.rebind name value m.bindings)
    rw [namesOf_rebind]

/-- What is done with the value whose method runs. -/
theorem ofSelf {f : Option Value → Run α} (hf : ∀ self, Reports reads (f self)) :
    Reports reads (do f (← get).self) := by
  intro m
  rw [bind_ok (x := get) (a := m) rfl]
  exact hf m.self m

theorem readThis : Reports reads readThis := by
  rw [readThis_eq]
  refine ofSelf fun self => ?_
  cases self with
  | some v => exact pure v
  | none => exact fail nofun

theorem writeThis (value : Value) : Reports reads (writeThis value) := by
  rw [writeThis_eq]
  refine ofSelf fun self => ?_
  cases self with
  | some v => exact fun _ => ⟨List.suffix_rfl, by rintro _ ⟨⟩⟩
  | none => exact fail nofun

theorem say (line : String) : Reports reads (say line) :=
  fun _ => ⟨List.suffix_rfl, by rintro _ ⟨⟩⟩

/-- What was declared in front of the variables there were goes out of sight, and nothing else. -/
theorem namesOf_drop {before after : List Binding} (h : namesOf before <:+ namesOf after) :
    namesOf (after.drop (after.length - before.length)) = namesOf before := by
  have hdrop := List.suffix_iff_eq_drop.mp h
  rw [namesOf, namesOf, List.length_map, List.length_map, ← List.map_drop] at hdrop
  rw [namesOf, namesOf, hdrop]

theorem inBlock {body : Run α} (h : Reports reads body) : Reports reads (inBlock body) := by
  intro m
  obtain ⟨hnames, hmissing⟩ := h m
  refine ⟨?_, hmissing⟩
  show namesOf m.bindings <:+ namesOf ((body m).2.bindings.drop _)
  rw [namesOf_drop hnames]

theorem round {body : Run Value} (h : Reports reads body) : Reports reads (round body) := by
  intro m
  obtain ⟨hnames, hmissing⟩ := h m
  unfold Run.round
  cases hbody : body m with
  | mk r m' =>
    rw [hbody] at hnames hmissing
    cases r with
    | ok v => exact ⟨hnames, nofun⟩
    | error i =>
      cases i with
      | failed cause =>
        exact ⟨hnames, fun name hi => hmissing name (congrArg Except.error (Except.error.inj hi))⟩
      | leaveLoop v => exact ⟨hnames, nofun⟩
      | nextRound => exact ⟨hnames, nofun⟩
      | giveBack v => exact ⟨hnames, nofun⟩

end Reports

/-- Truth of reports is kept wherever computations are put together. -/
def reporting (reads : String → Prop) : RunRelation reads where
  rel c _ := Reports reads c
  pure := .pure
  bind hc hf := .bind hc hf
  interrupt h := .interrupt h
  tick := .tick
  read := .read
  declare := .declare
  write value hname := .write hname value
  readThis := .readThis
  writeThis := .writeThis
  say := .say
  inBlock := .inBlock
  round := .round
  foresee {_ left right} f _ _ _ hf :=
    .ofBindings (f := fun bindings => f (left.fixed? bindings) (right.fixed? bindings))
      fun _ => hf _ _

/-! ## §3 Calls -/

section

variable {reads : String → Prop}

/-- What is missing inside a function is a failure of its call. -/
theorem returned_ne (function : String) (r : Except Interrupt Value) (name : String) :
    returned function r ≠ .error (.failed (.unknownVariable name)) := by
  cases r with
  | ok v => nofun
  | error i => cases i <;> nofun

theorem reports_inside (function : String) (self : Option Value) (bindings : List Binding)
    (body : Run Value) : Reports reads (inside function self bindings body) :=
  fun _ => ⟨List.suffix_rfl, fun name h => absurd h (returned_ne function _ name)⟩

theorem reports_inPlace (function : String) (bindings : List Binding) {body : Run Value}
    (h : Reports (fun _ => True) body) : Reports reads (inPlace function bindings body) := by
  intro m
  refine ⟨?_, fun name hmissing => absurd hmissing (returned_ne function _ name)⟩
  obtain ⟨hnames, -⟩ := h { m with bindings := bindings ++ m.bindings, self := none }
  have houter : namesOf m.bindings <:+ namesOf (bindings ++ m.bindings) := by
    rw [namesOf, namesOf, List.map_append]
    exact List.suffix_append _ _
  show namesOf m.bindings <:+ namesOf (List.drop _ _)
  rw [Reports.namesOf_drop (houter.trans hnames)]

theorem reports_enter {run : List Stmt → Run Value}
    (hrun : ∀ body, Reports (fun _ => True) (run body)) (site : Site) (f : Function)
    (args : List Value) : Reports reads (Program.enter run site f args) := by
  cases site with
  | plain => exact reports_inside _ _ _ _
  | method self => exact reports_inside _ _ _ _
  | inPlace => exact reports_inPlace _ _ (.bind .tick fun _ _ => hrun f.body)

theorem reports_runText {level : Level}
    (hrun : ∀ body, Reports (fun _ => True) (level.run body)) (v : Value) :
    Reports reads (Program.runText level v) := by
  unfold Program.runText
  split
  · split
    · exact .fail nofun
    · rename_i body _
      exact fun m => ⟨(hrun body { m with self := none }).1,
        fun name h => absurd h (returned_ne "eval" _ name)⟩
  · exact .fail nofun

theorem reports_definesVariable (v : Value) : Reports reads (Program.definesVariable v) := by
  unfold Program.definesVariable
  split
  · rename_i name
    exact .ofBindings (f := fun bindings => return Value.bool (binding? bindings name).isSome)
      fun _ => .pure _
  · exact .fail nofun

/-- No call on a level reports a missing variable, if none is reported where functions are entered.
A text can name any variable at all, and still declares none out of sight. -/
theorem reports_callOn (p : Program) {level : Level}
    (henter : ∀ site f args, Reports reads (level.enter site f args))
    (hrun : ∀ body, Reports (fun _ => True) (level.run body)) (site : Site) (name : String)
    (args : List Value) : Reports reads (p.callOn level site name args) :=
  RunRelation.rel_callOn (R := reporting reads) level level site name args
    (fun site' name' args' _ => RunRelation.named (henter site') name' args')
    (fun _ => RunRelation.definesFunction p) (fun _ => reports_definesVariable)
    (fun _ => reports_runText hrun)

theorem reports_call (p : Program) (levels : Nat) (site : Site) (name : String)
    (args : List Value) : Reports reads (p.call levels site name args) := by
  induction levels generalizing reads site name args with
  | zero =>
    have hdeep {reads : String → Prop} : Reports reads (Run.fail .callsTooDeep : Run Value) :=
      .fail nofun
    exact reports_callOn p (fun _ _ _ => hdeep) (fun _ => hdeep) site name args
  | succ levels ih =>
    have hcallees : (reporting fun _ => True).Callees (fun _ _ => True) (p.call levels)
        (p.call levels) := fun site name args _ => ih site name args
    have hrun (body : List Stmt) : Reports (fun _ => True) (runAll (p.call levels) body) :=
      RunRelation.rel_runAll hcallees body (usesThrough_true body)
    exact reports_callOn p (reports_enter hrun) hrun site name args

end

/-! ## §4 Expressions -/

/-- **A report of a missing variable is true**: the expression reads it, and it is not in sight. -/
theorem Program.eval_missing (p : Program) {reads : String → Prop}
    {calls : Bool → String → Prop} {bindings : List Binding} {e : Expr} {name : String}
    (huses : e.Uses reads calls)
    (h : p.eval bindings e = .error (.unknownVariable name)) :
    reads name ∧ binding? bindings name = none := by
  have hcallees : (reporting reads).Callees calls (p.call callLevels) (p.call callLevels) :=
    fun site name args _ => reports_call p callLevels site name args
  have hreports : Reports reads (e.eval (p.call callLevels)) :=
    RunRelation.rel_eval hcallees e huses
  have hmissing := (hreports (Machine.start bindings)).2 name
  unfold Program.eval Program.run at h
  simp only [ExceptT.run] at h
  cases hrun : e.eval (p.call callLevels) (Machine.start bindings) with
  | mk r m =>
    rw [hrun] at h hmissing
    cases r with
    | ok v => cases h
    | error i =>
      cases i with
      | failed cause =>
        cases h
        exact hmissing rfl
      | leaveLoop v => cases h
      | nextRound => cases h
      | giveBack v => cases h

end Script

namespace Scope

/-- Nothing is known under the name: it is not bound, and no constant has it. -/
def IsMissing (scope : Scope) (name : String) : Prop :=
  scope.contains name = false ∧ ∀ c ∈ constants, c.1 ≠ name

/-- What is bound in a scope is bound in the other, and what is bound besides is no constant. -/
structure Extends (ext scope : Scope) : Prop where
  keeps {name : String} {x : Float} : scope.get? name = some x → ext.get? name = some x
  spares : ∀ c ∈ constants, scope.contains c.1 = false → ext.contains c.1 = false

theorem get?_set (scope : Scope) (name : String) (x : Float) (other : String) :
    (scope.set name x).get? other
      = if lower other = lower name then some x else scope.get? other :=
  find?_put _ _ x scope.bindings

theorem get?_eq_none {scope : Scope} {name : String} (h : scope.contains name = false) :
    scope.get? name = none := by
  simpa [contains] using h

/-- A missing variable can be bound. -/
theorem IsMissing.extends {scope : Scope} {name : String} (h : scope.IsMissing name)
    (hlower : lower name = name) (x : Float) :
    (scope.set name x).Extends scope ∧ (scope.set name x).contains name = true := by
  refine ⟨⟨fun {other y} hother => ?_, fun c hc hnone => ?_⟩, ?_⟩
  · rw [get?_set, if_neg ?_, hother]
    intro hsame
    have hnone := get?_eq_none h.1
    rw [get?, ← hsame, ← get?, hother] at hnone
    cases hnone
  · rw [contains, get?_set, if_neg ?_, get?_eq_none hnone]
    · rfl
    · rw [lower_constant c hc, hlower]
      exact h.2 c hc
  · rw [contains, get?_set, if_pos rfl]
    rfl

end Scope

namespace Script

section

variable (p : Program) {text : List Char} {scope ext : Scope}
  (htext : ∀ c ∈ text, isCapital c = false)

include htext

theorem get?_of_mem_pieces {name : List Char} {called : Bool}
    (h : .name name called ∈ Formula.pieces text) (scope : Scope) :
    scope.get? (String.ofList name) = Scope.find? scope.bindings (String.ofList name) := by
  rw [Scope.get?, (Formula.isIdentifier_of_mem_pieces htext h).lower_eq]

/-- A report of a missing variable of a sheet. -/
theorem Program.evaluate_missing {v : String}
    (h : p.evaluate text scope = .error (.unknownVariable v)) :
    v.toList ∈ Formula.names text ∧ lower v = v ∧ scope.IsMissing v := by
  rw [Program.evaluate] at h
  split at h
  · cases h
  rename_i e hparse
  split at h
  · rename_i cause hcause
    obtain ⟨w, rfl⟩ : ∃ w, cause = .unknownVariable w := by
      cases cause with
      | unknownVariable w => exact ⟨w, rfl⟩
      | _ => cases h
    obtain ⟨⟨name, hname, rfl⟩, hnone⟩ := p.eval_missing (uses_of_parseFormula hparse) hcause
    have hv := ofFailure_variable (String.ofList name)
    rw [String.toList_ofList] at hv
    cases hv.symm.trans (Except.error.inj h)
    refine ⟨by simpa using Formula.mem_names hname,
      (Formula.isIdentifier_of_mem_pieces htext hname).lower_eq, ?_⟩
    rw [binding?_marked] at hnone
    split at hnone
    · cases hnone
    · rename_i hfind
      rw [Option.map_eq_none_iff, List.find?_eq_none] at hnone
      refine ⟨?_, by simpa using hnone⟩
      rw [Scope.contains, get?_of_mem_pieces htext hname, hfind]
      rfl
  · rename_i v' _
    unfold numberOf at h
    split at h
    · split at h <;> cases h
    · cases h
    · cases h

/-- Binding more variables changes nothing, unless one of them is reported as missing. -/
theorem Program.evaluate_extend (hlooks : ¬ Formula.LooksUp text) (hext : ext.Extends scope) :
    (∃ v, p.evaluate text scope = .error (.unknownVariable v))
      ∨ p.evaluate text scope = p.evaluate text ext := by
  rw [Program.evaluate, Program.evaluate]
  cases hparse : parseFormula (Formula.toScript text) with
  | error cause => exact .inr rfl
  | ok e =>
    have hbindings : AgreeOn (fun _ => True) (ReadsFrom (Formula.pieces text))
        (sheetBindings scope) (sheetBindings ext) := by
      rintro w ⟨name, hname, rfl⟩
      unfold Lacks
      rw [binding?_marked, binding?_marked, ← get?_of_mem_pieces htext hname,
        ← get?_of_mem_pieces htext hname]
      cases hscope : scope.get? (String.ofList name) with
      | some x => rw [hext.keeps hscope]; exact .inl rfl
      | none =>
        cases hmore : ext.get? (String.ofList name) with
        | none => exact .inl rfl
        | some x =>
          have hconstant : constants.find? (·.1 == String.ofList name) = none := by
            rw [List.find?_eq_none]
            rintro c hc hname
            rw [beq_iff_eq] at hname
            have hspared := hext.spares c hc (by rw [hname, Scope.contains, hscope]; rfl)
            rw [hname, Scope.contains, hmore] at hspared
            cases hspared
          rw [hconstant]
          exact .inr ⟨trivial, rfl, _, rfl, rfl⟩
    rcases p.eval_extend (uses_of_parseFormula hparse) (calls_of_not_looksUp hlooks) hbindings with
      ⟨w, _, hmissing⟩ | hsame
    · simp only [hmissing]
      exact .inl ⟨_, rfl⟩
    · exact .inr (by simp only [hsame])

end

end Script

/-! ## §5 Assignments -/

/-- An assignment waits for a variable exactly if one is reported as missing. -/
theorem lineFailure_eq_iff {e : EvalError} :
    e.lineFailure = .invalidExpression ↔ ∃ v, e = .unknownVariable v := by
  cases e <;> simp [EvalError.lineFailure, EvalError.isUnknownVariable]

theorem error_of_assignment {evaluator : Evaluator} {scope : Scope} {line : Line}
    {name right : List Char} {failure : LineFailure}
    (hkind : classify (normalize line.text.toList) = .assignment name right)
    (hfails : (lineStep evaluator scope line).result.outcome = .failure failure) :
    ∃ e, evaluator right scope = .error e ∧ e.lineFailure = failure := by
  have hgives := gives_lineStep evaluator scope line
  generalize (lineStep evaluator scope line).result = r at hgives hfails
  cases hgives with
  | blank hblank =>
    rw [hblank, classify_nil] at hkind
    cases hkind
  | bound _ _ => cases hfails
  | waiting hkind' herror hunknown =>
    cases hkind.symm.trans hkind'
    cases hfails
    exact ⟨_, herror, by rw [EvalError.lineFailure, if_pos hunknown]⟩
  | refused hkind' herror hunknown =>
    cases hkind.symm.trans hkind'
    cases hfails
    exact ⟨_, herror, by rw [EvalError.lineFailure, if_neg (by simp [hunknown])]⟩
  | percentage _ hkind' _ => cases hkind.symm.trans hkind'
  | value _ hkind' _ _ => cases hkind.symm.trans hkind'
  | failed _ hkind' _ _ => cases hkind.symm.trans hkind'

/-- **How an assignment fails tells whether binding more variables makes a difference.** One that is
reported as an invalid expression names a variable that is missing, and in every scope that binds it
the right side ends in another way. If the right side does not look variables up, by names that it
computes or in a function that it calls in place, the converse holds too: an assignment that is
reported as invalid fails for the same reason whatever else is bound. In particular, one that only
waits for variables is never reported so. -/
theorem assignment_fails (p : Program) (lines : List Line) {k : Nat} {line : Line}
    {name right : List Char} {r : ResultLine} {failure : LineFailure}
    (hline : lines[k]? = some line)
    (hkind : classify (normalize line.text.toList) = .assignment name right)
    (hresult : (recalculate p.evaluate lines)[k]? = some r)
    (hfails : r.outcome = .failure failure) :
    let scope := Scope.ofResults ((recalculate p.evaluate lines).take k)
    (failure = .invalidExpression → ∃ v, v.toList ∈ Formula.names right ∧ scope.IsMissing v
        ∧ ∀ ext : Scope, ext.Extends scope → ext.contains v = true →
          p.evaluate right ext ≠ p.evaluate right scope)
      ∧ (¬ Formula.LooksUp right →
        (failure = .invalidExpression
          ↔ ∃ ext : Scope, ext.Extends scope ∧ p.evaluate right ext ≠ p.evaluate right scope)
        ∧ ((∃ ext x, ext.Extends scope ∧ p.evaluate right ext = .ok x) →
          failure = .invalidExpression)) := by
  intro scope
  rw [recalculate_getElem? p.evaluate hline] at hresult
  cases hresult
  obtain ⟨e, herror, rfl⟩ := error_of_assignment hkind hfails
  have hlowered : ∀ c ∈ right, isCapital c = false := fun c hc =>
    isCapital_of_mem_normalize (right_subset_of_classify hkind hc)
  have hmissing : e.lineFailure = .invalidExpression → ∃ v, v.toList ∈ Formula.names right
      ∧ lower v = v ∧ scope.IsMissing v ∧ ∀ ext : Scope, ext.contains v = true →
        p.evaluate right ext ≠ p.evaluate right scope := by
    intro hwaits
    obtain ⟨v, rfl⟩ := lineFailure_eq_iff.mp hwaits
    obtain ⟨hnamed, hlower, hscope⟩ := p.evaluate_missing hlowered herror
    refine ⟨v, hnamed, hlower, hscope, fun ext hbound hsame => ?_⟩
    rw [(p.evaluate_missing hlowered (hsame.trans herror)).2.2.1] at hbound
    cases hbound
  refine ⟨fun hwaits => ?_, fun hlooks => ?_⟩
  · obtain ⟨v, hnamed, _, hscope, hends⟩ := hmissing hwaits
    exact ⟨v, hnamed, hscope, fun ext _ => hends ext⟩
  have hdiffers {ext : Scope} (hext : ext.Extends scope)
      (hends : p.evaluate right ext ≠ p.evaluate right scope) :
      e.lineFailure = .invalidExpression := by
    rcases p.evaluate_extend hlowered hlooks hext with ⟨v, hv⟩ | hsame
    · cases herror.symm.trans hv
      exact lineFailure_eq_iff.mpr ⟨v, rfl⟩
    · exact absurd hsame.symm hends
  refine ⟨⟨fun hwaits => ?_, fun ⟨ext, hext, hends⟩ => hdiffers hext hends⟩, ?_⟩
  · obtain ⟨v, _, hlower, hscope, hends⟩ := hmissing hwaits
    obtain ⟨hext, hbound⟩ := hscope.extends hlower 0
    exact ⟨scope.set v 0, hext, hends _ hbound⟩
  · rintro ⟨ext, x, hext, hvalue⟩
    refine hdiffers hext ?_
    rw [hvalue, herror]
    nofun

/-- The failure of a line, if it fails. -/
def ResultLine.failure? (r : ResultLine) : Option LineFailure :=
  match r.outcome with
  | .failure f => some f
  | _ => none

/-- The only line of a sheet that fails. -/
theorem result_of_failure? {lines : List Line} {k : Nat} {f : LineFailure} {p : Program}
    (h : ((recalculate p.evaluate lines)[k]?).bind ResultLine.failure? = some f) :
    ∃ r, (recalculate p.evaluate lines)[k]? = some r ∧ r.outcome = .failure f := by
  obtain ⟨r, hr, hfailure⟩ := Option.bind_eq_some_iff.mp h
  refine ⟨r, hr, ?_⟩
  unfold ResultLine.failure? at hfailure
  split at hfailure
  · cases hfailure
    assumption
  · cases hfailure

/-- A line that waits for a variable: something changes if one more is bound. -/
theorem assignment_fails_waiting :
    let lines := Line.numbered ["a = 2", "y = a + b"]
    let scope := Scope.ofResults ((recalculate Program.empty.evaluate lines).take 1)
    ∃ ext : Scope, ext.Extends scope ∧ Program.empty.evaluate "a + b".toList ext
      ≠ Program.empty.evaluate "a + b".toList scope := by
  intro lines scope
  obtain ⟨r, hresult, hfails⟩ := result_of_failure? (by decide +kernel :
    ((recalculate Program.empty.evaluate lines)[1]?).bind ResultLine.failure?
      = some .invalidExpression)
  have hkind : classify (normalize "y = a + b".toList) = .assignment ['y'] "a + b".toList := by
    decide +kernel
  have hline : lines[1]? = some ⟨2, "y = a + b"⟩ := rfl
  have h := assignment_fails Program.empty lines hline hkind hresult hfails
  exact (h.2 (by decide +kernel)).1.mp rfl

namespace Script

open Run

/-- A sum has a value only if its right operand has one, unless it is known beforehand. -/
theorem Program.yields_of_sum {p : Program} {bindings : List Binding} {left right : Expr}
    {v : Value} (hfixed : (Expr.binary .add left right).fixed? bindings = none)
    (h : p.eval bindings (.binary .add left right) = .ok v) :
    ∃ w, Yields (right.eval (p.call callLevels)) w := by
  have hsum : Yields (do
      tick
      let v ← left.eval (p.call callLevels)
      let w ← right.eval (p.call callLevels)
      ofResult (binary .add v w) : Run Value) v := by
    cases hrun : p.run bindings (.binary .add left right) with
    | mk r m =>
      rw [Program.eval, hrun] at h
      cases r with
      | ok w =>
        cases h
        exact ⟨_, m, (eval_of_not_fixed? hfixed).symm.trans hrun⟩
      | error i => cases i <;> cases h
  obtain ⟨_, -, hsum⟩ := hsum.of_bind
  obtain ⟨_, -, hsum⟩ := hsum.of_bind
  obtain ⟨w, hright, -⟩ := hsum.of_bind
  exact ⟨w, hright⟩

/-- A function that does not exist gives no value. -/
theorem not_yields_nofn (x : Float) (v : Value) :
    ¬ Yields ((Expr.call "nofn" [.float x]).eval (Program.empty.call Program.callLevels)) v := by
  intro h
  have hnone : builtin? "nofn" = none := by decide +kernel
  have happly : Library.apply "nofn" [.float x] = .error (.unknownFunction "nofn" ["f64"]) := by
    simp [Library.apply, Library.matching?, Library.ofSheet?, hnone, Library.ofOne?,
      Library.ofFloat?, Library.floatTest?, Value.kind]
  have hword : "nofn" ∉ callableWords := by decide
  have hcall : Program.empty.call Program.callLevels .plain "nofn" [.float x]
      = fail (.unknownFunction "nofn" ["f64"]) := by
    rw [call_library hword _ rfl, happly]
    rfl
  simp only [eval_call _ hword, evalLate_singleton, eval_float, bind_assoc, pure_bind, hcall] at h
  obtain ⟨_, -, h⟩ := h.of_bind
  obtain ⟨_, -, m, m', h⟩ := h.of_bind
  cases h

/-- The text is read as a sum, on the right of which `nofn` is called. -/
def addsNofn : Except ParseError Expr → Bool
  | .ok (.binary .add _ (.call "nofn" [.float _])) => true
  | _ => false

theorem exists_of_addsNofn {r : Except ParseError Expr} (h : addsNofn r = true) :
    ∃ left x, r = .ok (.binary .add left (.call "nofn" [.float x])) := by
  unfold addsNofn at h
  split at h
  · exact ⟨_, _, rfl⟩
  · cases h

end Script

theorem evaluate_nofn (scope : Scope) (x : Float) :
    Program.empty.evaluate "x + nofn(1)".toList scope ≠ .ok x := by
  obtain ⟨left, y, hparse⟩ := exists_of_addsNofn (by decide +kernel :
    addsNofn (parseFormula (Formula.toScript "x + nofn(1)".toList)) = true)
  intro h
  simp only [Program.evaluate, hparse] at h
  split at h
  · cases h
  · rename_i hvalue
    have hfixed : (Expr.binary .add left (.call "nofn" [.float y])).fixed? (sheetBindings scope)
        = none := by
      rw [Expr.fixed?]
      cases left.fixed? (sheetBindings scope) <;> rfl
    obtain ⟨w, hw⟩ := Program.yields_of_sum hfixed hvalue
    exact not_yields_nofn y w hw

/-- An assignment can be reported to wait for a variable although it also fails for another reason,
so that no value of the variable would help. -/
theorem assignment_otherFailure :
    ¬ ∀ (p : Program) (lines : List Line) (k : Nat) (line : Line) (name right : List Char)
      (r : ResultLine) (failure : LineFailure), lines[k]? = some line →
      classify (normalize line.text.toList) = .assignment name right →
      (recalculate p.evaluate lines)[k]? = some r → r.outcome = .failure failure →
      (failure = .invalidExpression
        ↔ ∃ (ext : Scope) (x : Float),
          ext.Extends (Scope.ofResults ((recalculate p.evaluate lines).take k))
            ∧ p.evaluate right ext = .ok x) := by
  intro h
  let lines : List Line := Line.numbered ["y = x + nofn(1)"]
  obtain ⟨r, hresult, hfails⟩ := result_of_failure? (by decide +kernel :
    ((recalculate Program.empty.evaluate lines)[0]?).bind ResultLine.failure?
      = some .invalidExpression)
  have hkind : classify (normalize "y = x + nofn(1)".toList)
      = .assignment ['y'] "x + nofn(1)".toList := by decide +kernel
  obtain ⟨ext, x, -, hvalue⟩ := (h Program.empty lines 0 ⟨1, "y = x + nofn(1)"⟩ _ _ r _ rfl hkind
    hresult hfails).mp rfl
  exact evaluate_nofn ext x hvalue

end SumSheet
