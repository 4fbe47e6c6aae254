/-
SumSheet.Proofs.PassScope — a pass is known from its results alone.

The scope that a pass carries from line to line is not published; the
results are. `Scope.ofResults` builds a scope from results, and
`recalculate_replay` says that it is the one the pass had: every result
is what its line gives in the scope of the results before it.

  §1 Bindings  — `put` replaces one binding and keeps the names distinct.
  §2 Results   — `Scope.ofResults`, and what it has to do with the last
                 assignment of a name.
  §3 One line  — `Gives`, the rules of a line one by one.
  §4 All lines — the scope in front of a line is that of the results
                 before it, by induction on the lines.
-/
import Mathlib
import SumSheet.Pass
import SumSheet.Proofs.NormalForm

namespace SumSheet

/-! ## §1 Bindings -/

namespace Scope

theorem put_cons_self {b : String × Float} {name : String} (h : b.1 = name) (value : Float)
    (rest : List (String × Float)) : put name value (b :: rest) = (name, value) :: rest := by
  simp [put, h]

theorem put_cons_other {b : String × Float} {name : String} (h : b.1 ≠ name) (value : Float)
    (rest : List (String × Float)) : put name value (b :: rest) = b :: put name value rest := by
  simp [put, h]

theorem find?_cons (b : String × Float) (rest : List (String × Float)) (name : String) :
    find? (b :: rest) name = if b.1 = name then some b.2 else find? rest name := by
  by_cases h : b.1 = name <;> simp [find?, h]

theorem find?_put_self (name : String) (value : Float) (bindings : List (String × Float)) :
    find? (put name value bindings) name = some value := by
  induction bindings with
  | nil => simp [put, find?]
  | cons b rest ih =>
    by_cases hb : b.1 = name
    · rw [put_cons_self hb, find?_cons, if_pos rfl]
    · rw [put_cons_other hb, find?_cons, if_neg hb, ih]

theorem find?_put_other {name other : String} (h : other ≠ name) (value : Float)
    (bindings : List (String × Float)) :
    find? (put name value bindings) other = find? bindings other := by
  induction bindings with
  | nil => simp [put, find?, h.symm]
  | cons b rest ih =>
    by_cases hb : b.1 = name
    · rw [put_cons_self hb, find?_cons, find?_cons, if_neg h.symm, if_neg (hb ▸ h.symm)]
    · rw [put_cons_other hb, find?_cons, find?_cons, ih]

theorem find?_put (name other : String) (value : Float) (bindings : List (String × Float)) :
    find? (put name value bindings) other
      = if other = name then some value else find? bindings other := by
  split
  · rename_i h
    rw [h, find?_put_self]
  · exact find?_put_other ‹_› value bindings

theorem mem_names_put {name other : String} {value : Float} {bindings : List (String × Float)}
    (h : other ∈ (put name value bindings).map (·.1)) :
    other = name ∨ other ∈ bindings.map (·.1) := by
  induction bindings with
  | nil => simpa [put] using h
  | cons b rest ih =>
    by_cases hb : b.1 = name
    · rw [put_cons_self hb, List.map_cons, List.mem_cons] at h
      exact h.imp id (List.mem_cons_of_mem _)
    · rw [put_cons_other hb, List.map_cons, List.mem_cons] at h
      rw [List.map_cons, List.mem_cons]
      rcases h with h | h
      · exact .inr (.inl h)
      · exact (ih h).imp id .inr

theorem nodup_put (name : String) (value : Float) {bindings : List (String × Float)}
    (h : (bindings.map (·.1)).Nodup) : ((put name value bindings).map (·.1)).Nodup := by
  induction bindings with
  | nil => simp [put]
  | cons b rest ih =>
    have hcons := List.nodup_cons.mp h
    by_cases hb : b.1 = name
    · rw [put_cons_self hb, List.map_cons, ← hb]
      exact h
    · rw [put_cons_other hb, List.map_cons, List.nodup_cons]
      exact ⟨fun hmem => (mem_names_put hmem).elim hb hcons.1, ih hcons.2⟩

theorem ofList_concat (bindings : List (String × Float)) (b : String × Float) :
    ofList (bindings ++ [b]) = (ofList bindings).set b.1 b.2 := by
  simp [ofList]

/-- No name is bound twice, in whatever order names were bound. -/
theorem nodup_ofList (bindings : List (String × Float)) :
    ((ofList bindings).toList.map (·.1)).Nodup := by
  induction bindings using List.reverseRecOn with
  | nil => exact List.nodup_nil
  | append_singleton bindings b ih =>
    rw [ofList_concat]
    exact nodup_put _ _ ih

/-- Where the names are distinct, a pair is bound exactly if looking its name up finds it. -/
theorem mem_iff_find? {name : String} {value : Float} {bindings : List (String × Float)}
    (h : (bindings.map (·.1)).Nodup) :
    (name, value) ∈ bindings ↔ find? bindings name = some value := by
  induction bindings with
  | nil => simp [find?]
  | cons b rest ih =>
    have hcons := List.nodup_cons.mp h
    rw [find?_cons, List.mem_cons]
    split
    · rename_i hb
      have habsent : (name, value) ∉ rest := fun hmem =>
        hcons.1 (List.mem_map.mpr ⟨_, hmem, hb.symm⟩)
      simp [habsent, Prod.ext_iff, hb, eq_comm]
    · rename_i hb
      have hother : (name, value) ≠ b := fun he => hb (he ▸ rfl)
      simp [hother, ih hcons.2]

end Scope

/-! ## §2 Results -/

/-- The variable that a result binds for the lines below, with its value. -/
def ResultLine.binding? (r : ResultLine) : Option (String × Float) :=
  match r.assigned, r.outcome with
  | some name, .value x => some (name, x)
  | _, _ => none

/-- The scope with the bindings of results added, one after the other. -/
def Scope.extend (scope : Scope) (results : List ResultLine) : Scope :=
  (results.filterMap ResultLine.binding?).foldl (fun s b => s.set b.1 b.2) scope

/-- The scope that results leave. -/
def Scope.ofResults (results : List ResultLine) : Scope :=
  Scope.extend ∅ results

/-- The value that the last of the results that assign a name gives it. -/
def lastAssigned? (results : List ResultLine) (name : String) : Option Float :=
  (results.reverse.find? (·.assigned == some name)).bind ResultLine.value?

/-- A result that binds a name has a value for it, and the name is a lower-case identifier. -/
def ResultLine.BindsWell (r : ResultLine) : Prop :=
  ∀ name, r.assigned = some name → IsIdentifier name.toList ∧ ∃ x, r.outcome = .value x

theorem lastAssigned?_append (before : List ResultLine) (r : ResultLine) (name : String) :
    lastAssigned? (before ++ [r]) name
      = if r.assigned = some name then r.value? else lastAssigned? before name := by
  by_cases h : r.assigned = some name <;> simp [lastAssigned?, h]

namespace Scope

theorem extend_append (scope : Scope) (before after : List ResultLine) :
    scope.extend (before ++ after) = (scope.extend before).extend after := by
  simp [extend, List.filterMap_append, List.foldl_append]

theorem ofResults_append (before after : List ResultLine) :
    ofResults (before ++ after) = (ofResults before).extend after :=
  extend_append ∅ before after

theorem extend_of_binding?_none (scope : Scope) {r : ResultLine} (h : r.binding? = none) :
    scope.extend [r] = scope := by
  simp [extend, h]

theorem extend_of_binding? (scope : Scope) {r : ResultLine} {name : String} {x : Float}
    (h : r.binding? = some (name, x)) : scope.extend [r] = scope.set name x := by
  simp [extend, h]

/-- No name has two bindings in the scope of results. -/
theorem ofResults_nodup (results : List ResultLine) :
    ((ofResults results).bindings.map (·.1)).Nodup :=
  nodup_ofList (results.filterMap ResultLine.binding?)

/-- Looking a name up in the scope of results finds what the last of them that assigns the name
gives it. -/
theorem find?_ofResults {results : List ResultLine} (h : ∀ r ∈ results, r.BindsWell)
    (name : String) : find? (ofResults results).bindings name = lastAssigned? results name := by
  induction results using List.reverseRecOn with
  | nil => rfl
  | append_singleton before r ih =>
    have ih := ih fun r hr => h r (by simp [hr])
    rw [ofResults_append, lastAssigned?_append]
    cases hassigned : r.assigned with
    | none =>
      have hbinding : r.binding? = none := by simp [ResultLine.binding?, hassigned]
      rw [extend_of_binding?_none _ hbinding, ih, if_neg (by simp)]
    | some bound =>
      obtain ⟨hbound, x, houtcome⟩ := h r (by simp) bound hassigned
      have hlower : Text.lower bound = bound := by simpa using hbound.lower_eq
      have hbinding : r.binding? = some (bound, x) := by
        simp [ResultLine.binding?, hassigned, houtcome]
      rw [extend_of_binding? _ hbinding, set, hlower, find?_put, ih]
      by_cases hname : name = bound
      · rw [if_pos hname, if_pos (by rw [hname])]
        simp [ResultLine.value?, houtcome]
      · rw [if_neg hname, if_neg (by simpa using Ne.symm hname)]

end Scope

/-! ## §3 One line -/

/-- What a line gives in a scope, rule by rule. -/
inductive Gives (evaluator : Evaluator) (scope : Scope) (line : Line) : ResultLine → Prop
  | blank (hblank : normalize line.text.toList = []) :
    Gives evaluator scope line ⟨line.id, none, .blank⟩
  | bound {name right : List Char} {x : Float}
    (hkind : classify (normalize line.text.toList) = .assignment name right)
    (hvalue : evaluator right scope = .ok x) :
    Gives evaluator scope line ⟨line.id, some (String.ofList name), .value x⟩
  /-- An assignment that waits for a variable. -/
  | waiting {name right : List Char} {e : EvalError}
    (hkind : classify (normalize line.text.toList) = .assignment name right)
    (herror : evaluator right scope = .error e) (hunknown : e.isUnknownVariable = true) :
    Gives evaluator scope line ⟨line.id, none, .failure .invalidExpression⟩
  /-- An assignment that fails for any other reason. -/
  | refused {name right : List Char} {e : EvalError}
    (hkind : classify (normalize line.text.toList) = .assignment name right)
    (herror : evaluator right scope = .error e) (hunknown : e.isUnknownVariable = false) :
    Gives evaluator scope line ⟨line.id, none, .failure .invalidAssignment⟩
  | percentage {text : List Char} {x : Float} (hsome : normalize line.text.toList ≠ [])
    (hkind : classify (normalize line.text.toList) = .expression text)
    (hvalue : percentageValue? text = some x) :
    Gives evaluator scope line ⟨line.id, none, .value x⟩
  | value {text : List Char} {x : Float} (hsome : normalize line.text.toList ≠ [])
    (hkind : classify (normalize line.text.toList) = .expression text)
    (hgeneral : percentageValue? text = none) (hvalue : evaluator text scope = .ok x) :
    Gives evaluator scope line ⟨line.id, none, .value x⟩
  | failed {text : List Char} {e : EvalError} (hsome : normalize line.text.toList ≠ [])
    (hkind : classify (normalize line.text.toList) = .expression text)
    (hgeneral : percentageValue? text = none) (herror : evaluator text scope = .error e) :
    Gives evaluator scope line ⟨line.id, none, .failure .invalidExpression⟩

theorem classify_nil : classify [] = .expression [] := rfl

section

variable (evaluator : Evaluator) (scope : Scope) (line : Line)

/-- The step of a line gives what the rules say. -/
theorem gives_lineStep : Gives evaluator scope line (lineStep evaluator scope line).result := by
  unfold lineStep
  split
  · rename_i hblank
    exact .blank hblank
  · rename_i text hsome
    split
    · rename_i name right hkind
      cases hvalue : evaluator right scope with
      | ok x => simpa only [assignmentStep, hvalue] using .bound hkind hvalue
      | error e =>
        cases hunknown : e.isUnknownVariable with
        | true =>
          simpa only [assignmentStep, hvalue, EvalError.lineFailure, hunknown, if_true]
            using .waiting hkind hvalue hunknown
        | false =>
          simpa only [assignmentStep, hvalue, EvalError.lineFailure, hunknown, Bool.false_eq_true,
            if_false] using .refused hkind hvalue hunknown
    · rename_i text hkind
      cases hpercentage : percentageValue? text with
      | some x => simpa only [expressionStep, hpercentage] using .percentage hsome hkind hpercentage
      | none =>
        cases hvalue : evaluator text scope with
        | ok x =>
          simpa only [expressionStep, hpercentage, hvalue]
            using .value hsome hkind hpercentage hvalue
        | error e =>
          simpa only [expressionStep, hpercentage, hvalue]
            using .failed hsome hkind hpercentage hvalue

/-- The rules leave no choice. -/
theorem Gives.eq_lineStep {r : ResultLine} (h : Gives evaluator scope line r) :
    r = (lineStep evaluator scope line).result := by
  unfold lineStep
  cases h with
  | blank hblank => rw [hblank]
  | bound hkind hvalue =>
    split
    · rename_i hblank
      rw [hblank, classify_nil] at hkind
      cases hkind
    · simp only [hkind, assignmentStep, hvalue]
  | waiting hkind herror hunknown =>
    split
    · rename_i hblank
      rw [hblank, classify_nil] at hkind
      cases hkind
    · simp only [hkind, assignmentStep, herror, EvalError.lineFailure, hunknown, if_true]
  | refused hkind herror hunknown =>
    split
    · rename_i hblank
      rw [hblank, classify_nil] at hkind
      cases hkind
    · simp only [hkind, assignmentStep, herror, EvalError.lineFailure, hunknown,
        Bool.false_eq_true, if_false]
  | percentage hsome hkind hvalue =>
    split
    · contradiction
    · simp only [hkind, expressionStep, hvalue]
  | value hsome hkind hgeneral hvalue =>
    split
    · contradiction
    · simp only [hkind, expressionStep, hgeneral, hvalue]
  | failed hsome hkind hgeneral herror =>
    split
    · contradiction
    · simp only [hkind, expressionStep, hgeneral, herror]

/-- The scope behind a line is that in front of it with what the result binds. -/
theorem lineStep_scope :
    (lineStep evaluator scope line).scope
      = scope.extend [(lineStep evaluator scope line).result] := by
  unfold lineStep
  split
  · rfl
  · split
    · unfold assignmentStep
      split <;> rfl
    · unfold expressionStep
      split
      · rfl
      · split <;> rfl

theorem lineStep_id : (lineStep evaluator scope line).result.id = line.id := by
  have hgives := gives_lineStep evaluator scope line
  generalize (lineStep evaluator scope line).result = r at hgives
  cases hgives <;> rfl

theorem bindsWell_lineStep : (lineStep evaluator scope line).result.BindsWell := by
  intro bound hbound
  have hgives := gives_lineStep evaluator scope line
  generalize (lineStep evaluator scope line).result = r at hgives hbound
  cases hgives with
  | bound hkind hvalue =>
    cases hbound
    exact ⟨by rw [String.toList_ofList]; exact isIdentifier_of_classify hkind, _, rfl⟩
  | _ => cases hbound

end

/-- What a line does depends on the value of the expression that it asks for, and on no other. -/
theorem lineStep_of_asked {evaluator other : Evaluator} {scope : Scope} {line : Line}
    (h : ∀ expression ∈ line.asked?, evaluator expression scope = other expression scope) :
    lineStep evaluator scope line = lineStep other scope line := by
  unfold Line.asked? at h
  unfold lineStep
  split at h
  · rfl
  · split at h
    · rename_i name right hkind
      simp only [assignmentStep, h right rfl]
    · rename_i text hkind
      cases hpercentage : percentageValue? text with
      | some x => simp only [expressionStep, hpercentage]
      | none => simp only [expressionStep, hpercentage, h text (by simp [hpercentage])]

/-! ## §4 All lines -/

theorem numbered_texts (texts : List String) : (Line.numbered texts).map (·.text) = texts := by
  apply List.ext_getElem
  · simp [Line.numbered]
  · intro i hi hi'
    simp [Line.numbered]

section

variable (evaluator : Evaluator)

/-- The results of lines, the first of them in this scope. -/
def resultsFrom (scope : Scope) (lines : List Line) : List ResultLine :=
  (stepsFrom evaluator scope lines).map (·.result)

theorem recalculate_eq (lines : List Line) :
    recalculate evaluator lines = resultsFrom evaluator ∅ lines := rfl

theorem resultsFrom_cons (scope : Scope) (line : Line) (rest : List Line) :
    resultsFrom evaluator scope (line :: rest)
      = (lineStep evaluator scope line).result
        :: resultsFrom evaluator (scope.extend [(lineStep evaluator scope line).result]) rest := by
  simp only [resultsFrom, stepsFrom, List.map_cons, lineStep_scope]

/-- Lines behind others are evaluated in the scope with the results of those others. -/
theorem resultsFrom_append (scope : Scope) (before after : List Line) :
    resultsFrom evaluator scope (before ++ after)
      = resultsFrom evaluator scope before
        ++ resultsFrom evaluator (scope.extend (resultsFrom evaluator scope before)) after := by
  induction before generalizing scope with
  | nil => rfl
  | cons line rest ih =>
    rw [List.cons_append, resultsFrom_cons, resultsFrom_cons, ih, List.cons_append,
      ← Scope.extend_append, List.singleton_append]

theorem resultsFrom_ids (scope : Scope) (lines : List Line) :
    (resultsFrom evaluator scope lines).map (·.id) = lines.map (·.id) := by
  induction lines generalizing scope with
  | nil => rfl
  | cons line rest ih =>
    rw [resultsFrom_cons, List.map_cons, List.map_cons, ih, lineStep_id]

theorem bindsWell_of_mem_resultsFrom {scope : Scope} {lines : List Line} {r : ResultLine}
    (h : r ∈ resultsFrom evaluator scope lines) : r.BindsWell := by
  induction lines generalizing scope with
  | nil => simp [resultsFrom, stepsFrom] at h
  | cons line rest ih =>
    rw [resultsFrom_cons, List.mem_cons] at h
    rcases h with rfl | h
    · exact bindsWell_lineStep evaluator scope line
    · exact ih h

/-- A pass depends on the evaluator only through what the lines ask for. -/
theorem stepsFrom_of_requests {other : Evaluator} {scope : Scope} {lines : List Line}
    (h : ∀ request ∈ requestsFrom evaluator scope lines,
      evaluator request.1 request.2 = other request.1 request.2) :
    stepsFrom evaluator scope lines = stepsFrom other scope lines := by
  induction lines generalizing scope with
  | nil => rfl
  | cons line rest ih =>
    rw [requestsFrom, List.forall_mem_append] at h
    have hline : lineStep evaluator scope line = lineStep other scope line := by
      refine lineStep_of_asked fun expression hasked => h.1 (expression, scope) ?_
      rw [Option.mem_def.mp hasked]
      exact List.mem_cons_self
    simp only [stepsFrom, hline, ih (hline ▸ h.2)]

theorem recalculate_ids (lines : List Line) :
    (recalculate evaluator lines).map (·.id) = lines.map (·.id) :=
  resultsFrom_ids evaluator ∅ lines

theorem recalculate_length (lines : List Line) :
    (recalculate evaluator lines).length = lines.length := by
  simpa using congrArg List.length (recalculate_ids evaluator lines)

/-- A pass over the first lines gives the first results. -/
theorem recalculate_take (lines : List Line) (k : Nat) :
    recalculate evaluator (lines.take k) = (recalculate evaluator lines).take k := by
  rcases Nat.le_total k lines.length with hk | hk
  · have hsplit := resultsFrom_append evaluator ∅ (lines.take k) (lines.drop k)
    have hlength : (resultsFrom evaluator ∅ (lines.take k)).length = k := by
      rw [← recalculate_eq, recalculate_length, List.length_take, Nat.min_eq_left hk]
    rw [List.take_append_drop] at hsplit
    rw [recalculate_eq, recalculate_eq, hsplit, List.take_left' hlength]
  · rw [List.take_of_length_le hk, List.take_of_length_le (by rw [recalculate_length]; exact hk)]

/-- Every result is what the step of its line gives in the scope of the results before it. -/
theorem recalculate_getElem? {lines : List Line} {k : Nat} {line : Line}
    (h : lines[k]? = some line) :
    (recalculate evaluator lines)[k]?
      = some (lineStep evaluator (.ofResults ((recalculate evaluator lines).take k))
        line).result := by
  obtain ⟨hk, hline⟩ := List.getElem?_eq_some_iff.mp h
  have hsplit : lines = lines.take k ++ line :: lines.drop (k + 1) := by
    rw [← hline, List.cons_getElem_drop_succ, List.take_append_drop]
  have hlength : (recalculate evaluator (lines.take k)).length = k := by
    rw [recalculate_length, List.length_take, Nat.min_eq_left (Nat.le_of_lt hk)]
  rw [← recalculate_take]
  conv_lhs => rw [hsplit]
  rw [recalculate_eq, resultsFrom_append, resultsFrom_cons, ← recalculate_eq,
    List.getElem?_append_right (Nat.le_of_eq hlength), hlength, Nat.sub_self]
  rfl

theorem bindsWell_of_mem_take {lines : List Line} {k : Nat} :
    ∀ r ∈ (recalculate evaluator lines).take k, r.BindsWell :=
  fun _ hr => bindsWell_of_mem_resultsFrom evaluator (List.mem_of_mem_take hr)

theorem ofResults_take_succ {results : List ResultLine} {k : Nat} {r : ResultLine}
    (h : results[k]? = some r) (hfailure : r.isFailure = true) :
    Scope.ofResults (results.take (k + 1)) = Scope.ofResults (results.take k) := by
  have hbinding : r.binding? = none := by
    unfold ResultLine.isFailure at hfailure
    split at hfailure
    · rename_i houtcome
      cases hassigned : r.assigned <;> simp only [ResultLine.binding?, houtcome, hassigned]
    · cases hfailure
  rw [List.take_add_one, h, Option.toList_some, Scope.ofResults_append,
    Scope.extend_of_binding?_none _ hbinding]

/-- **A pass, replayed from its results.** There is one result for each line, with its id and in
its place. It is the only one that the rules let the line give in the scope of the results before
it, and that scope binds exactly the names they assign, each to its last value. A failure leaves
the scope as it was, and a pass over fewer lines gives the same results for them. -/
theorem recalculate_replay (lines : List Line) :
    let results := recalculate evaluator lines
    results.map (·.id) = lines.map (·.id)
      ∧ (∀ k line, lines[k]? = some line → ∃ r, results[k]? = some r
        ∧ ∀ r', Gives evaluator (.ofResults (results.take k)) line r' ↔ r' = r)
      ∧ (∀ k name x, (name, x) ∈ (Scope.ofResults (results.take k)).toList
        ↔ lastAssigned? (results.take k) name = some x)
      ∧ (∀ k name, (Scope.ofResults (results.take k)).get? name
        = lastAssigned? (results.take k) (Text.lower name))
      ∧ (∀ k r, results[k]? = some r → r.isFailure = true →
        Scope.ofResults (results.take (k + 1)) = Scope.ofResults (results.take k))
      ∧ ∀ k, recalculate evaluator (lines.take k) = results.take k := by
  refine ⟨recalculate_ids evaluator lines, fun k line hline => ?_, fun k name x => ?_,
    fun k name => ?_, fun k r hr hfailure => ofResults_take_succ hr hfailure,
    recalculate_take evaluator lines⟩
  · refine ⟨_, recalculate_getElem? evaluator hline, fun r' => ⟨Gives.eq_lineStep _ _ _, ?_⟩⟩
    rintro rfl
    exact gives_lineStep _ _ _
  · rw [← Scope.find?_ofResults (bindsWell_of_mem_take evaluator)]
    exact Scope.mem_iff_find? (Scope.ofResults_nodup _)
  · exact Scope.find?_ofResults (bindsWell_of_mem_take evaluator) _

/-- A variable is bound, an assignment to it fails, and the line below still sees the first. -/
theorem recalculate_replay_rebinding :
    let evaluator : Evaluator := fun text scope =>
      if text = ['4'] then .ok 4.0
      else
        match scope.get? (String.ofList text) with
        | some x => .ok x
        | none => .error (.unknownVariable (String.ofList text))
    let lines : List Line := [⟨7, "X = 4"⟩, ⟨3, "x = y"⟩, ⟨9, "x"⟩]
    let results := recalculate evaluator lines
    lines[2]? = some ⟨9, "x"⟩
      ∧ (∃ r, results[1]? = some r ∧ r.isFailure = true
        ∧ Scope.ofResults (results.take 2) = Scope.ofResults (results.take 1))
      ∧ ∃ r, results[2]? = some r ∧ Gives evaluator (.ofResults (results.take 2)) ⟨9, "x"⟩ r := by
  intro evaluator lines results
  obtain ⟨_, hgives, _, _, hkept, _⟩ := recalculate_replay evaluator lines
  have hline : lines[2]? = some ⟨9, "x"⟩ := rfl
  obtain ⟨r, hr, hrules⟩ := hgives 2 ⟨9, "x"⟩ hline
  have hfailed : results[1]? = some ⟨3, none, .failure .invalidExpression⟩ := by rfl
  exact ⟨hline, ⟨_, hfailed, rfl, hkept 1 _ hfailed rfl⟩, r, hr, (hrules r).mpr rfl⟩

end

end SumSheet
