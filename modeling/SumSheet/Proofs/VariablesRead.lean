/-
SumSheet.Proofs.VariablesRead — an expression sees no variables but those
that it names.

Two runs of an expression are compared, in scopes that agree on the
variables it names and may differ in all others: in their values, in
their number, in their order. `Blind` says of a computation that it ends
the same way in both, does as many operations, and leaves scopes that
agree again. Every step of the machine is blind that way, and so is
whatever is put together from blind computations; the walk through
evaluation does the rest (`eval_congr`).

The first scope may also lack some of the variables that the expression
names. A run that gets to one of them then ends there, and one that does
not is none the wiser (`eval_extend`).

Two functions are not blind: `is_def_var`, which looks for a variable
whose name is computed, and `eval`, which runs a text that is. Nor is any
function that is called in place, since its body sees what its caller
sees. An expression may not call them (`LooksAround`).

  §1 Bindings     — scopes that agree on some names.
  §2 Computations — blind ones, and how they are put together.
  §3 Calls        — a function sees its arguments alone.
  §4 Values       — in scopes that agree.
-/
import SumSheet.Proofs.EvaluationWalk

namespace SumSheet.Script

open Run

/-! ## §1 Bindings -/

/-- The first scope lacks a variable of the second. -/
def Lacks (first second : List Binding) (name : String) : Prop :=
  binding? first name = none ∧ ∃ b, binding? second name = some b ∧ b.constant = false

/-- The variables of these names are the same in both scopes, but for some that the first one may
lack. -/
def AgreeOn (lacking reads : String → Prop) (first second : List Binding) : Prop :=
  ∀ name, reads name →
    binding? first name = binding? second name ∨ lacking name ∧ Lacks first second name

section

variable {lacking reads : String → Prop} {first second : List Binding}

theorem binding?_append (own others : List Binding) (name : String) :
    binding? (own ++ others) name = (binding? own name).or (binding? others name) :=
  List.find?_append

/-- Variables in front of both make no difference. -/
theorem AgreeOn.append (h : AgreeOn lacking reads first second) (own : List Binding) :
    AgreeOn lacking reads (own ++ first) (own ++ second) := by
  intro name hname
  unfold Lacks
  rw [binding?_append, binding?_append]
  cases hown : binding? own name with
  | some b => exact .inl rfl
  | none => exact h name hname

theorem binding?_cons (b : Binding) (rest : List Binding) (name : String) :
    binding? (b :: rest) name = if b.name = name then some b else binding? rest name := by
  by_cases hb : b.name = name <;> simp [binding?, hb]

theorem rebind_cons (name : String) (value : Value) (b : Binding) (rest : List Binding) :
    rebind name value (b :: rest)
      = if b.name = name then { b with value } :: rest else b :: rebind name value rest := by
  simp [rebind]

theorem length_rebind (name : String) (value : Value) (bindings : List Binding) :
    (rebind name value bindings).length = bindings.length := by
  induction bindings with
  | nil => rfl
  | cons b rest ih =>
    rw [rebind_cons]
    split <;> simp [ih]

theorem binding?_rebind (name other : String) (value : Value) (bindings : List Binding) :
    binding? (rebind name value bindings) other
      = if other = name then (binding? bindings name).map fun b => { b with value }
        else binding? bindings other := by
  induction bindings with
  | nil => simp [rebind, binding?]
  | cons b rest ih =>
    rw [rebind_cons]
    by_cases hb : b.name = name
    · by_cases hother : other = name
      · simp [binding?_cons, hb, hother]
      · simp [binding?_cons, hb, hother, Ne.symm hother]
    · by_cases hother : other = name
      · subst hother
        simpa [binding?_cons, hb] using ih
      · simp [binding?_cons, hb, hother, ih]

/-- The innermost of two bindings is the one that changes. -/
theorem rebind_append (name : String) (value : Value) (own others : List Binding) :
    rebind name value (own ++ others)
      = if (binding? own name).isSome then rebind name value own ++ others
        else own ++ rebind name value others := by
  induction own with
  | nil => rfl
  | cons b rest ih =>
    rw [List.cons_append, rebind_cons, rebind_cons, binding?_cons, ih]
    by_cases hb : b.name = name
    · simp [hb]
    · simp only [hb, if_false]
      split <;> rfl

theorem AgreeOn.rebind (h : AgreeOn lacking reads first second) (name : String) (value : Value) :
    AgreeOn lacking reads (rebind name value first) (rebind name value second) := by
  intro other hother
  unfold Lacks
  rw [binding?_rebind, binding?_rebind]
  by_cases hname : other = name
  · subst hname
    rw [if_pos rfl, if_pos rfl]
    refine (h other hother).imp (fun heq => by rw [heq]) ?_
    rintro ⟨hlacking, hnone, b, hb, hconstant⟩
    exact ⟨hlacking, by rw [hnone]; rfl, { b with value }, by rw [hb]; rfl, hconstant⟩
  · rw [if_neg hname, if_neg hname]
    exact h other hother

/-- A literal or a constant that is known beforehand is known in both scopes. -/
theorem Expr.fixed?_congr {calls : Bool → String → Prop} (h : AgreeOn lacking reads first second) :
    (e : Expr) → e.Uses reads calls → e.fixed? first = e.fixed? second
  | .variable name, huses => by
    rw [fixed?, fixed?]
    rcases h name huses with heq | ⟨_, hnone, b, hb, hconstant⟩
    · rw [heq]
    · simp [hnone, hb, hconstant]
  | .binary op left right, huses => by
    rw [fixed?, fixed?, left.fixed?_congr h huses.1, right.fixed?_congr h huses.2]
  | .both left right, huses => by
    rw [fixed?, fixed?, left.fixed?_congr h huses.1, right.fixed?_congr h huses.2]
  | .either left right, huses => by
    rw [fixed?, fixed?, left.fixed?_congr h huses.1, right.fixed?_congr h huses.2]
  | .unit, _ | .bool _, _ | .int _, _ | .float _, _ | .text _, _ | .char _, _ | .closure, _
  | .this, _ | .unary _ _, _ | .orElse _ _, _ | .call _ _, _ | .inPlace _ _, _ | .list _, _
  | .record _ _, _ | .chain _ _, _ | .choose _ _ _, _ | .block _, _ => rfl

end

/-! ## §2 Computations -/

/-- The outermost variables, so many in each of the scopes, agree on these names. All others are the
same. -/
def AgreeBehind (lacking reads : String → Prop) (n₁ n₂ : Nat) (first second : List Binding) :
    Prop :=
  ∃ own outer₁ outer₂, first = own ++ outer₁ ∧ second = own ++ outer₂
    ∧ outer₁.length = n₁ ∧ outer₂.length = n₂ ∧ AgreeOn lacking reads outer₁ outer₂

/-- Machines that differ at most in their outermost variables, which agree on these names. -/
structure Alike (lacking reads : String → Prop) (n₁ n₂ : Nat) (m₁ m₂ : Machine) : Prop where
  operations : m₁.operations = m₂.operations
  self : m₁.self = m₂.self
  written : m₁.written = m₂.written
  bindings : AgreeBehind lacking reads n₁ n₂ m₁.bindings m₂.bindings

theorem AgreeBehind.agreeOn {lacking reads : String → Prop} {n₁ n₂ : Nat}
    {first second : List Binding} (h : AgreeBehind lacking reads n₁ n₂ first second) :
    AgreeOn lacking reads first second := by
  obtain ⟨own, outer₁, outer₂, rfl, rfl, -, -, hagree⟩ := h
  exact hagree.append own

/-- Variables in front of both make no difference. -/
theorem AgreeBehind.append {lacking reads : String → Prop} {n₁ n₂ : Nat}
    {first second : List Binding} (h : AgreeBehind lacking reads n₁ n₂ first second)
    (front : List Binding) :
    AgreeBehind lacking reads n₁ n₂ (front ++ first) (front ++ second) := by
  obtain ⟨own, outer₁, outer₂, rfl, rfl, h⟩ := h
  exact ⟨front ++ own, outer₁, outer₂, (List.append_assoc ..).symm, (List.append_assoc ..).symm, h⟩

/-- As many variables as were declared go out of sight in both scopes. -/
theorem AgreeBehind.drop {lacking reads : String → Prop} {n₁ n₂ : Nat}
    {first second first' second' : List Binding}
    (h : AgreeBehind lacking reads n₁ n₂ first second)
    (h' : AgreeBehind lacking reads n₁ n₂ first' second') (hlength : first.length ≤ first'.length) :
    AgreeBehind lacking reads n₁ n₂ (first'.drop (first'.length - first.length))
        (second'.drop (second'.length - second.length))
      ∧ first.length ≤ (first'.drop (first'.length - first.length)).length := by
  obtain ⟨own, outer₁, outer₂, rfl, rfl, hn₁, hn₂, -⟩ := h
  obtain ⟨own', outer₁', outer₂', rfl, rfl, hn₁', hn₂', hagree⟩ := h'
  simp only [List.length_append] at hlength ⊢
  have hdrop (outer outer' : List Binding) (houter : outer'.length = outer.length) :
      (own' ++ outer').drop (own'.length + outer'.length - (own.length + outer.length))
        = own'.drop (own'.length - own.length) ++ outer' := by
    rw [houter, Nat.add_sub_add_right, List.drop_append_of_le_length (Nat.sub_le _ _)]
  rw [hdrop outer₁ outer₁' (by omega), hdrop outer₂ outer₂' (by omega)]
  refine ⟨⟨_, outer₁', outer₂', rfl, rfl, hn₁', hn₂', hagree⟩, ?_⟩
  rw [List.length_append, List.length_drop]
  omega

/-- The computation ends for want of a variable. -/
def Wants {α : Type} (lacking : String → Prop) (c : Run α) (m : Machine) : Prop :=
  ∃ name, lacking name ∧ (c m).1 = .error (.failed (.unknownVariable name))

/-- The computation ends alike on machines that are alike, and takes no variable out of sight,
unless it ends for want of one that the first machine lacks. -/
def Blind {α : Type} (lacking reads : String → Prop) (c : Run α) : Prop :=
  ∀ n₁ n₂ m₁ m₂, Alike lacking reads n₁ n₂ m₁ m₂ → Wants lacking c m₁
    ∨ (c m₁).1 = (c m₂).1 ∧ Alike lacking reads n₁ n₂ (c m₁).2 (c m₂).2
      ∧ m₁.bindings.length ≤ (c m₁).2.bindings.length

namespace Blind

variable {lacking reads : String → Prop} {α β : Type}

theorem bind {c : Run α} {f : α → Run β} (hc : Blind lacking reads c)
    (hf : ∀ a, Yields c a → Blind lacking reads (f a)) : Blind lacking reads (c >>= f) := by
  intro n₁ n₂ m₁ m₂ hm
  cases h₁ : c m₁ with
  | mk r₁ m₁' =>
    cases h₂ : c m₂ with
    | mk r₂ m₂' =>
      rcases hc n₁ n₂ m₁ m₂ hm with ⟨name, hname, hwants⟩ | ⟨hresult, halike, hlength⟩
      · rw [h₁] at hwants
        obtain rfl : r₁ = _ := hwants
        exact .inl ⟨name, hname, by rw [bind_error h₁]⟩
      rw [h₁, h₂] at hresult halike
      rw [h₁] at hlength
      obtain rfl : r₁ = r₂ := hresult
      unfold Wants
      cases r₁ with
      | error i =>
        rw [bind_error h₁, bind_error h₂]
        exact .inr ⟨rfl, halike, hlength⟩
      | ok a =>
        rw [bind_ok h₁, bind_ok h₂]
        refine (hf a ⟨m₁, m₁', h₁⟩ n₁ n₂ m₁' m₂' halike).imp_right ?_
        rintro ⟨hresult', halike', hlength'⟩
        exact ⟨hresult', halike', hlength.trans hlength'⟩

theorem pure (a : α) : Blind lacking reads (pure a : Run α) :=
  fun _ _ _ _ hm => .inr ⟨rfl, hm, le_refl _⟩

theorem interrupt (i : Interrupt) : Blind lacking reads (throw i : Run α) :=
  fun _ _ _ _ hm => .inr ⟨rfl, hm, le_refl _⟩

theorem fail (cause : Failure) : Blind lacking reads (fail cause : Run α) :=
  interrupt _

theorem ofResult (r : Except Failure α) : Blind lacking reads (ofResult r) := by
  cases r with
  | ok v => exact pure v
  | error cause => exact fail cause

theorem tick : Blind lacking reads tick := by
  intro n₁ n₂ m₁ m₂ hm
  refine .inr ?_
  unfold Run.tick
  rw [← hm.operations]
  split
  · exact ⟨rfl, { hm with operations := rfl }, le_refl _⟩
  · exact ⟨rfl, hm, le_refl _⟩

/-- What is done with the scope, if it is the same in scopes that agree. -/
theorem ofBindings {f : List Binding → Run α}
    (hsame : ∀ first second, AgreeOn lacking reads first second → f first = f second)
    (hf : ∀ bindings, Blind lacking reads (f bindings)) :
    Blind lacking reads (do f (← get).bindings) := by
  intro n₁ n₂ m₁ m₂ hm
  have hbindings : f m₂.bindings = f m₁.bindings := (hsame _ _ hm.bindings.agreeOn).symm
  unfold Wants
  rw [bind_ok (x := get) (a := m₁) rfl, bind_ok (x := get) (a := m₂) rfl, hbindings]
  exact hf m₁.bindings n₁ n₂ m₁ m₂ hm

/-- What is done with a variable, which must be there. -/
theorem ofBinding {name : String} (hname : reads name) {f : Option Binding → Run α}
    (hnone : f none = Run.fail (.unknownVariable name))
    (hf : ∀ b, Blind lacking reads (f b)) :
    Blind lacking reads (do f (binding? (← get).bindings name)) := by
  intro n₁ n₂ m₁ m₂ hm
  unfold Wants
  rw [bind_ok (x := get) (a := m₁) rfl, bind_ok (x := get) (a := m₂) rfl]
  rcases hm.bindings.agreeOn name hname with heq | ⟨hlacking, habsent, -⟩
  · rw [← heq]
    exact hf _ n₁ n₂ m₁ m₂ hm
  · rw [habsent, hnone]
    exact .inl ⟨name, hlacking, rfl⟩

/-- What is done with the value whose method runs. -/
theorem ofSelf {f : Option Value → Run α} (hf : ∀ self, Blind lacking reads (f self)) :
    Blind lacking reads (do f (← get).self) := by
  intro n₁ n₂ m₁ m₂ hm
  unfold Wants
  rw [bind_ok (x := get) (a := m₁) rfl, bind_ok (x := get) (a := m₂) rfl, ← hm.self]
  exact hf _ n₁ n₂ m₁ m₂ hm

theorem read {name : String} (hname : reads name) : Blind lacking reads (read name) := by
  rw [read_eq]
  refine ofBinding hname rfl fun b => ?_
  cases b with
  | some b => exact pure _
  | none => exact fail _

theorem declare (name : String) (value : Value) (constant : Bool) :
    Blind lacking reads (declare name value constant) :=
  fun _ _ _ _ hm => .inr ⟨rfl, { hm with bindings := hm.bindings.append [⟨name, value, constant⟩] },
    Nat.le_succ _⟩

theorem rebind (name : String) (value : Value) :
    Blind lacking reads
      (modify fun m => { m with bindings := rebind name value m.bindings } : Run Unit) := by
  intro n₁ n₂ m₁ m₂ hm
  refine .inr ⟨rfl, { hm with bindings := ?_ }, (length_rebind name value _).symm.le⟩
  obtain ⟨own, outer₁, outer₂, h₁, h₂, hn₁, hn₂, hagree⟩ := hm.bindings
  have hrebind {m : Machine} {outer : List Binding} (h : m.bindings = own ++ outer) :
      Run.rebind name value m.bindings = if (binding? own name).isSome
        then Run.rebind name value own ++ outer else own ++ Run.rebind name value outer := by
    rw [h, rebind_append]
  by_cases hown : (binding? own name).isSome = true
  · exact ⟨Run.rebind name value own, outer₁, outer₂, (hrebind h₁).trans (if_pos hown),
      (hrebind h₂).trans (if_pos hown), hn₁, hn₂, hagree⟩
  · exact ⟨own, Run.rebind name value outer₁, Run.rebind name value outer₂,
      (hrebind h₁).trans (if_neg hown), (hrebind h₂).trans (if_neg hown),
      (length_rebind ..).trans hn₁, (length_rebind ..).trans hn₂, hagree.rebind name value⟩

theorem write {name : String} (hname : reads name) (value : Value) :
    Blind lacking reads (write name value) := by
  rw [write_eq]
  refine ofBinding hname rfl fun b => ?_
  cases b with
  | none => exact fail _
  | some b =>
    rw [writeFound]
    split
    · exact fail _
    · exact rebind name value

theorem readThis : Blind lacking reads readThis := by
  rw [readThis_eq]
  refine ofSelf fun self => ?_
  cases self with
  | some v => exact pure _
  | none => exact fail _

theorem writeThis (value : Value) : Blind lacking reads (writeThis value) := by
  rw [writeThis_eq]
  refine ofSelf fun self => ?_
  cases self with
  | some v => exact fun _ _ _ _ hm => .inr ⟨rfl, { hm with self := rfl }, le_refl _⟩
  | none => exact fail _

theorem say (line : String) : Blind lacking reads (say line) := by
  intro n₁ n₂ m₁ m₂ hm
  refine .inr ⟨rfl, { hm with written := ?_ }, le_refl _⟩
  show m₁.written ++ [line] = m₂.written ++ [line]
  rw [hm.written]

/-- As many variables as were declared go out of sight on both machines. -/
theorem inBlock {body : Run α} (h : Blind lacking reads body) :
    Blind lacking reads (inBlock body) := by
  intro n₁ n₂ m₁ m₂ hm
  refine (h n₁ n₂ m₁ m₂ hm).imp id ?_
  rintro ⟨hresult, halike, hlength⟩
  obtain ⟨hbindings, hlength'⟩ := hm.bindings.drop halike.bindings hlength
  exact ⟨hresult, { halike with bindings := hbindings }, hlength'⟩

/-- The body of a function sees the same variables on both machines. -/
theorem inside (name : String) (self : Option Value) (bindings : List Binding) (body : Run Value) :
    Blind lacking reads (inside name self bindings body) := by
  intro n₁ n₂ m₁ m₂ hm
  have hsame : ({ m₂ with bindings, self } : Machine) = { m₁ with bindings, self } := by
    rw [hm.operations, hm.written]
  refine .inr ?_
  unfold Run.inside
  rw [hsame]
  exact ⟨rfl, ⟨rfl, hm.self, rfl, hm.bindings⟩, le_refl _⟩

theorem round {body : Run Value} (h : Blind lacking reads body) :
    Blind lacking reads (round body) := by
  intro n₁ n₂ m₁ m₂ hm
  unfold Wants Run.round
  cases h₁ : body m₁ with
  | mk r₁ m₁' =>
    cases h₂ : body m₂ with
    | mk r₂ m₂' =>
      rcases h n₁ n₂ m₁ m₂ hm with ⟨name, hname, hwants⟩ | ⟨hresult, halike, hlength⟩
      · rw [h₁] at hwants
        obtain rfl : r₁ = _ := hwants
        exact .inl ⟨name, hname, rfl⟩
      rw [h₁, h₂] at hresult halike
      rw [h₁] at hlength
      obtain rfl : r₁ = r₂ := hresult
      refine .inr ?_
      cases r₁ with
      | ok v => exact ⟨rfl, halike, hlength⟩
      | error i => cases i <;> exact ⟨rfl, halike, hlength⟩

end Blind

/-- Blindness is kept wherever computations are put together. -/
def blindness (lacking reads : String → Prop) : RunRelation reads where
  rel c _ := Blind lacking reads c
  pure := .pure
  bind hc hf := .bind hc hf
  interrupt _ := .interrupt _
  tick := .tick
  read := .read
  declare := .declare
  write value hname := .write hname value
  readThis := .readThis
  writeThis := .writeThis
  say := .say
  inBlock := .inBlock
  round := .round
  foresee {calls left right} f f' hleft hright hf := by
    refine .ofBindings (f := fun bindings => f (left.fixed? bindings) (right.fixed? bindings))
      (fun first second hagree => ?_) fun _ => hf _ _
    rw [left.fixed?_congr hagree hleft, right.fixed?_congr hagree hright]

/-! ## §3 Calls -/

/-- The call may look among the variables of its caller. -/
def LooksAround (inPlace : Bool) (name : String) : Prop :=
  inPlace = true ∨ name = "is_def_var" ∨ name = "eval"

section

variable {lacking reads : String → Prop} {calls : Bool → String → Prop}

/-- A function of a script sees no variables of its caller, unless it is called in place. -/
theorem blind_enter {site : Site} (h : site.isInPlace = false) (run : List Stmt → Run Value)
    (f : Function) (args : List Value) : Blind lacking reads (Program.enter run site f args) := by
  cases site with
  | plain => exact .inside _ _ _ _
  | method self => exact .inside _ _ _ _
  | inPlace => cases h

/-- A call sees no variables, unless it looks among those of its caller. -/
theorem blind_call {p : Program} {levels : Nat} {site : Site} {name : String} {args : List Value}
    (h : ¬ LooksAround site.isInPlace name) :
    Blind lacking reads (p.call levels site name args) := by
  obtain ⟨hsite, hvariable, htext⟩ : site.isInPlace = false ∧ name ≠ "is_def_var"
      ∧ name ≠ "eval" := by
    simpa [LooksAround] using h
  have hcall (level : Level) (henter : ∀ (site : Site) (f : Function) (args : List Value),
      site.isInPlace = false → Blind lacking reads (level.enter site f args)) :
      Blind lacking reads (p.callOn level site name args) := by
    refine RunRelation.rel_callOn (R := blindness lacking reads) level level site name args ?_
      (fun _ => RunRelation.definesFunction p) (fun h => absurd h hvariable)
      (fun h => absurd h htext)
    intro site' name' args' hsite'
    refine RunRelation.named (fun f args => henter site' f args ?_) name' args'
    exact Bool.eq_false_iff.mpr fun h => Bool.eq_false_iff.mp hsite (hsite' h)
  cases levels with
  | zero => exact hcall _ fun _ _ _ _ => .fail _
  | succ levels => exact hcall _ fun site f args hsite => blind_enter hsite _ f args

/-- An expression is blind to all variables but those it uses. -/
theorem Expr.blind_eval (p : Program) (levels : Nat) {e : Expr} (huses : e.Uses reads calls)
    (hcalls : ∀ inPlace name, calls inPlace name → ¬ LooksAround inPlace name) :
    Blind lacking reads (e.eval (p.call levels)) := by
  have hcallees : (blindness lacking reads).Callees calls (p.call levels) (p.call levels) :=
    fun _ name _ hname => blind_call (hcalls _ name hname)
  exact RunRelation.rel_eval hcallees e huses

end

/-! ## §4 Values -/

section

variable {lacking reads : String → Prop} {calls : Bool → String → Prop}
  {first second : List Binding} {e : Expr}

/-- What is blind as a computation has the same value in two scopes, or fails in both for the same
reason, or the first one lacks a variable that it needs. -/
theorem Blind.eval {p : Program} (h : Blind lacking reads (e.eval (p.call Program.callLevels)))
    (hagree : AgreeOn lacking reads first second) :
    (∃ name, lacking name ∧ p.eval first e = .error (.unknownVariable name))
      ∨ p.eval first e = p.eval second e := by
  have halike : Alike lacking reads first.length second.length (Machine.start first)
      (Machine.start second) :=
    ⟨rfl, rfl, rfl, [], first, second, rfl, rfl, rfl, rfl, hagree⟩
  have hresult := h _ _ _ _ halike
  unfold Program.eval Program.run
  unfold Wants at hresult
  cases h₁ : e.eval (p.call Program.callLevels) (Machine.start first) with
  | mk r₁ m₁ =>
    cases h₂ : e.eval (p.call Program.callLevels) (Machine.start second) with
    | mk r₂ m₂ =>
      rw [h₁, h₂] at hresult
      simp only [ExceptT.run, h₁, h₂]
      rcases hresult with ⟨name, hname, rfl⟩ | ⟨rfl, -⟩
      · exact .inl ⟨name, hname, rfl⟩
      · refine .inr ?_
        cases r₁ with
        | ok v => rfl
        | error i => cases i <;> rfl

/-- An expression has the same value in two scopes, or fails in both for the same reason, or the
first one lacks a variable that it needs. It must not make a call that looks among variables. -/
theorem Program.eval_extend (p : Program) (huses : e.Uses reads calls)
    (hcalls : ∀ inPlace name, calls inPlace name → ¬ LooksAround inPlace name)
    (hagree : AgreeOn lacking reads first second) :
    (∃ name, lacking name ∧ p.eval first e = .error (.unknownVariable name))
      ∨ p.eval first e = p.eval second e :=
  (Expr.blind_eval p callLevels huses hcalls).eval hagree

/-- **An expression has the same value in scopes that agree on the variables it uses**, or fails in
both for the same reason. It must not make a call that looks among variables. -/
theorem Program.eval_congr (p : Program) (huses : e.Uses reads calls)
    (hcalls : ∀ inPlace name, calls inPlace name → ¬ LooksAround inPlace name)
    (hagree : ∀ name, reads name → binding? first name = binding? second name) :
    p.eval first e = p.eval second e := by
  have hall : AgreeOn (fun _ => False) reads first second :=
    fun name hname => .inl (hagree name hname)
  refine (p.eval_extend huses hcalls hall).resolve_left ?_
  rintro ⟨_, ⟨⟩, _⟩

end

end SumSheet.Script
