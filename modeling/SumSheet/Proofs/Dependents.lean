/-
SumSheet.Proofs.Dependents — an edit reaches only the lines that depend
on it.

A line that is edited assigns another variable than before, or gives it
another value. Lines below that read the variable may have other results,
and where these are assignments, so may the lines that read theirs.
`Reached` lists the names that an edit can reach in this way. A line that
reads none of them keeps its result (`recalculate_modify`).

Two passes are followed side by side. Their scopes may differ on the
names that are reached and on no others: a step keeps that
(`Scope.AgreeOff.step`), and an induction on the lines carries it to
every line. What a line needs of it is that an expression sees no
variables but those it names.

The functions `is_def_var` and `eval` look for variables by names that
are computed, and the body of a function that is called in place sees
all variables of the sheet. A line with such a call counts as reached by
every edit above it; without that the result does not hold
(`recalculate_modify_lookingUp`).

  §1 Expressions — the same value where the variables named agree.
  §2 Lines       — what a line reads and what it assigns.
  §3 Passes      — two of them, side by side.
  §4 Edits       — what an edit reaches.
-/
import SumSheet.Proofs.NamesRead
import SumSheet.Proofs.PassScope
import SumSheet.Proofs.VariablesRead

namespace SumSheet

open Text Script

/-! ## §1 Expressions -/

namespace Formula

/-- The expression calls a function in place, as in `f!(1)`. -/
def RunsInPlace (text : List Char) : Prop :=
  marksCall (toScript text) = true

instance (text : List Char) : Decidable (RunsInPlace text) :=
  inferInstanceAs (Decidable (_ = _))

/-- The expression calls a function that looks for variables by names that are computed, or one that
sees all variables. -/
def LooksUp (text : List Char) : Prop :=
  .name "is_def_var".toList true ∈ pieces text ∨ .name "eval".toList true ∈ pieces text
    ∨ RunsInPlace text

instance (text : List Char) : Decidable (LooksUp text) :=
  inferInstanceAs (Decidable (_ ∨ _ ∨ _))

theorem mem_names {name text : List Char} {called : Bool} (h : .name name called ∈ pieces text) :
    name ∈ names text :=
  List.mem_filterMap.mpr ⟨_, h, rfl⟩

theorem exists_of_mem_names {name text : List Char} (h : name ∈ names text) :
    ∃ called, .name name called ∈ pieces text := by
  obtain ⟨piece, hmem, hname⟩ := List.mem_filterMap.mp h
  cases piece with
  | name word called =>
    cases hname
    exact ⟨called, hmem⟩
  | number _ => cases hname
  | power => cases hname
  | other _ => cases hname

end Formula

namespace Script

theorem calls_of_not_looksUp {text : List Char} (h : ¬ Formula.LooksUp text) :
    ∀ inPlace name, CallsFrom (Formula.pieces text) inPlace name →
      ¬ LooksAround inPlace name := by
  intro inPlace name hcall hlooks
  cases inPlace with
  | true => exact h (.inr (.inr hcall))
  | false =>
    rcases hlooks.resolve_left nofun with rfl | rfl
    · exact h (.inl (hcall (.inl rfl)))
    · exact h (.inr (.inl (hcall (.inr rfl))))

/-- **The value of an expression depends on the variables it names alone**, if it calls no function
that looks for others. -/
theorem Program.evaluate_congr (p : Program) {text : List Char} {first second : Scope}
    (hlooks : ¬ Formula.LooksUp text)
    (hagree : ∀ name ∈ Formula.names text, Scope.find? first.bindings (String.ofList name)
      = Scope.find? second.bindings (String.ofList name)) :
    p.evaluate text first = p.evaluate text second := by
  rw [Program.evaluate, Program.evaluate]
  cases hparse : parseFormula (Formula.toScript text) with
  | error cause => rfl
  | ok e =>
    have hbindings : ∀ w, ReadsFrom (Formula.pieces text) w →
        Run.binding? (sheetBindings first) w = Run.binding? (sheetBindings second) w := by
      rintro w ⟨name, hname, rfl⟩
      rw [binding?_marked, binding?_marked, hagree name (Formula.mem_names hname)]
    simp only [p.eval_congr (uses_of_parseFormula hparse) (calls_of_not_looksUp hlooks) hbindings]

end Script

/-! ## §2 Lines -/

/-- The expression of a line with this text: the right side of an assignment, or else all of it. -/
def expressionOf (text : String) : List Char :=
  match classify (normalize text.toList) with
  | .assignment _ right => right
  | .expression text => text

/-- The variable that a line with this text assigns, unless it fails. -/
def assignedBy? (text : String) : Option (List Char) :=
  match classify (normalize text.toList) with
  | .assignment name _ => some name
  | .expression _ => none

/-- The line sees something of a set of names: it reads one of them, or it is of those that look
variables up. -/
def Line.Sees (looksUp reached : List Char → Prop) (line : Line) : Prop :=
  looksUp (expressionOf line.text) ∨ ∃ name ∈ Formula.names (expressionOf line.text), reached name

instance (looksUp reached : List Char → Prop) [DecidablePred looksUp] [DecidablePred reached]
    (line : Line) : Decidable (line.Sees looksUp reached) :=
  inferInstanceAs (Decidable (_ ∨ _))

theorem Line.Sees.mono {looksUp reached reached' : List Char → Prop} {line : Line}
    (h : line.Sees looksUp reached) (hsub : ∀ name, reached name → reached' name) :
    line.Sees looksUp reached' :=
  h.imp_right fun ⟨name, hread, hname⟩ => ⟨name, hread, hsub name hname⟩

/-- A line only binds the variable that it assigns. -/
theorem assignedBy?_of_binding? {evaluator : Evaluator} {scope : Scope} {line : Line}
    {name : String} {x : Float}
    (h : (lineStep evaluator scope line).result.binding? = some (name, x)) :
    assignedBy? line.text = some name.toList ∧ lower name = name := by
  have hgives := gives_lineStep evaluator scope line
  generalize (lineStep evaluator scope line).result = r at hgives h
  cases hgives with
  | bound hkind _ =>
    cases h
    rw [assignedBy?, hkind, String.toList_ofList]
    exact ⟨rfl, (isIdentifier_of_classify hkind).lower_eq⟩
  | _ => cases h

/-! ## §3 Passes -/

namespace Scope

/-- The scopes bind all names alike but those of this set. -/
def AgreeOff (reached : List Char → Prop) (first second : Scope) : Prop :=
  ∀ name, ¬ reached name →
    find? first.bindings (String.ofList name) = find? second.bindings (String.ofList name)

end Scope

/-- A line that sees nothing of what differs gives the same result. -/
theorem lineStep_congr (p : Program) {reached : List Char → Prop} {first second : Scope}
    {line : Line} (h : first.AgreeOff reached second)
    (hfree : ¬ line.Sees Formula.LooksUp reached) :
    (lineStep p.evaluate first line).result = (lineStep p.evaluate second line).result := by
  have hvalue : p.evaluate (expressionOf line.text) first
      = p.evaluate (expressionOf line.text) second := by
    refine p.evaluate_congr (fun hlooks => hfree (.inl hlooks)) fun name hname => h name ?_
    exact fun hreached => hfree (.inr ⟨name, hname, hreached⟩)
  unfold lineStep
  split
  · rfl
  · rename_i hsome
    rw [expressionOf] at hvalue
    split
    · rename_i hkind
      rw [hkind] at hvalue
      simp only [assignmentStep, hvalue]
      split <;> rfl
    · rename_i hkind
      rw [hkind] at hvalue
      simp only [expressionStep, hvalue]
      split
      · rfl
      · split <;> rfl

namespace Scope

/-- What is found under a name behind a result: what the result binds under it, or what was there
before. -/
theorem find?_extend (scope : Scope) (r : ResultLine) (name : String) :
    find? (scope.extend [r]).bindings name
      = match r.binding? with
        | some b => if lower b.1 = name then some b.2 else find? scope.bindings name
        | none => find? scope.bindings name := by
  cases hbinding : r.binding? with
  | none => rw [extend_of_binding?_none scope hbinding]
  | some b =>
    rw [extend_of_binding? scope hbinding, set]
    by_cases hname : lower b.1 = name
    · simp only [hname, find?_put_self, if_true]
    · simp only [find?_put_other (Ne.symm hname), if_neg hname]

namespace AgreeOff

variable {reached : List Char → Prop} {first second : Scope} (h : first.AgreeOff reached second)

include h

/-- The same result behind both scopes makes no difference. -/
theorem extend (r : ResultLine) : (first.extend [r]).AgreeOff reached (second.extend [r]) := by
  intro name hname
  rw [find?_extend, find?_extend, h name hname]

/-- Neither do two results that bind nothing but what is reached. -/
theorem extend_reached {r r' : ResultLine} (hr : ∀ b ∈ r.binding?, reached (lower b.1).toList)
    (hr' : ∀ b ∈ r'.binding?, reached (lower b.1).toList) :
    (first.extend [r]).AgreeOff reached (second.extend [r']) := by
  have hkept (scope : Scope) {r : ResultLine} (hr : ∀ b ∈ r.binding?, reached (lower b.1).toList)
      {name : List Char} (hname : ¬ reached name) :
      find? (scope.extend [r]).bindings (String.ofList name)
        = find? scope.bindings (String.ofList name) := by
    rw [find?_extend]
    split
    · rename_i b hbinding
      refine if_neg fun hb => hname ?_
      simpa [hb] using hr b hbinding
    · rfl
  intro name hname
  rw [hkept first hr hname, hkept second hr' hname, h name hname]

/-- One line, behind both scopes. -/
theorem step (p : Program) (line line' : Line)
    (hline : ∀ name ∈ assignedBy? line.text, reached name)
    (hline' : ∀ name ∈ assignedBy? line'.text, reached name) :
    (first.extend [(lineStep p.evaluate first line).result]).AgreeOff reached
      (second.extend [(lineStep p.evaluate second line').result]) := by
  have hbound {scope : Scope} {line : Line} (hline : ∀ name ∈ assignedBy? line.text, reached name) :
      ∀ b ∈ (lineStep p.evaluate scope line).result.binding?, reached (lower b.1).toList := by
    intro b hb
    obtain ⟨hassigned, hlower⟩ := assignedBy?_of_binding? hb
    rw [hlower]
    exact hline _ hassigned
  exact h.extend_reached (hbound hline) (hbound hline')

/-- **A pass over the same lines, in scopes that differ on some names**, gives the same results for
all lines that see nothing of them. The names have to be closed: a line that sees one of them
assigns one of them. -/
theorem results (p : Program) {lines : List Line}
    (hclosed : ∀ line ∈ lines, line.Sees Formula.LooksUp reached →
      ∀ name ∈ assignedBy? line.text, reached name)
    {j : Nat} {line : Line} (hline : lines[j]? = some line)
    (hfree : ¬ line.Sees Formula.LooksUp reached) :
    (resultsFrom p.evaluate first lines)[j]? = (resultsFrom p.evaluate second lines)[j]? := by
  induction lines generalizing first second j with
  | nil => cases hline
  | cons head rest ih =>
    rw [resultsFrom_cons, resultsFrom_cons]
    cases j with
    | zero =>
      cases hline
      rw [List.getElem?_cons_zero, List.getElem?_cons_zero, lineStep_congr p h hfree]
    | succ j =>
      rw [List.getElem?_cons_succ, List.getElem?_cons_succ]
      refine ih ?_ (fun line hmem => hclosed line (List.mem_cons_of_mem _ hmem)) hline
      by_cases hsees : head.Sees Formula.LooksUp reached
      · have hreached := hclosed head List.mem_cons_self hsees
        exact h.step p head head hreached hreached
      · rw [lineStep_congr p h hsees]
        exact h.extend _

end AgreeOff

end Scope

/-! ## §4 Edits -/

/-- The names that an edit can reach, if line `k` gets another text: those that the line assigns
before and after, and the names that lines below assign where they see one that is reached. -/
inductive Reached (looksUp : List Char → Prop) (lines : List Line) (k : Nat) (text : String) :
    List Char → Prop
  | before {line : Line} {name : List Char} (hline : lines[k]? = some line)
      (hname : assignedBy? line.text = some name) : Reached looksUp lines k text name
  | after {name : List Char} (hname : assignedBy? text = some name) :
      Reached looksUp lines k text name
  | reading {j : Nat} {line : Line} {read name : List Char} (hbelow : k < j)
      (hline : lines[j]? = some line) (hread : read ∈ Formula.names (expressionOf line.text))
      (hname : assignedBy? line.text = some name) (h : Reached looksUp lines k text read) :
      Reached looksUp lines k text name
  | lookingUp {j : Nat} {line : Line} {name : List Char} (hbelow : k < j)
      (hline : lines[j]? = some line) (hlooks : looksUp (expressionOf line.text))
      (hname : assignedBy? line.text = some name) : Reached looksUp lines k text name

section

variable {looksUp : List Char → Prop} {lines : List Line} {k : Nat} {text : String}

theorem Reached.of_sees {j : Nat} {line : Line} (hbelow : k < j) (hline : lines[j]? = some line)
    (hsees : line.Sees looksUp (Reached looksUp lines k text)) :
    ∀ name ∈ assignedBy? line.text, Reached looksUp lines k text name := by
  intro name hname
  rcases hsees with hlooks | ⟨read, hread, hreached⟩
  · exact .lookingUp hbelow hline hlooks hname
  · exact .reading hbelow hline hread hname hreached

/-- It is the least such set. -/
theorem Reached.least {names : List Char → Prop}
    (hbefore : ∀ line ∈ lines[k]?, ∀ name ∈ assignedBy? line.text, names name)
    (hafter : ∀ name ∈ assignedBy? text, names name)
    (hbelow : ∀ line ∈ lines.drop (k + 1), line.Sees looksUp names →
      ∀ name ∈ assignedBy? line.text, names name)
    {name : List Char} (h : Reached looksUp lines k text name) : names name := by
  have hmem {j : Nat} {line : Line} (hj : k < j) (hline : lines[j]? = some line) :
      line ∈ lines.drop (k + 1) := by
    refine List.mem_of_getElem? (i := j - (k + 1)) ?_
    rw [List.getElem?_drop, ← hline]
    congr 1
    omega
  induction h with
  | before hline hname => exact hbefore _ hline _ hname
  | after hname => exact hafter _ hname
  | reading hj hline hread hname _ ih =>
    exact hbelow _ (hmem hj hline) (.inr ⟨_, hread, ih⟩) _ hname
  | lookingUp hj hline hlooks hname => exact hbelow _ (hmem hj hline) (.inl hlooks) _ hname

end

/-- Lines above a place do not see what stands below it. -/
theorem recalculate_above (evaluator : Evaluator) {first second : List Line} {k : Nat}
    (h : first.take k = second.take k) {j : Nat} (hj : j < k) :
    (recalculate evaluator first)[j]? = (recalculate evaluator second)[j]? := by
  rw [← List.getElem?_take_of_lt hj, ← recalculate_take, h, recalculate_take,
    List.getElem?_take_of_lt hj]

/-- Lines below one that is replaced keep their results, if they see nothing of what the one and the
other assign. -/
theorem recalculate_below (p : Program) {reached : List Char → Prop} (above below : List Line)
    (old new : Line) (hold : ∀ name ∈ assignedBy? old.text, reached name)
    (hnew : ∀ name ∈ assignedBy? new.text, reached name)
    (hclosed : ∀ line ∈ below, line.Sees Formula.LooksUp reached →
      ∀ name ∈ assignedBy? line.text, reached name)
    {i : Nat} {line : Line} (hline : below[i]? = some line)
    (hfree : ¬ line.Sees Formula.LooksUp reached) :
    (recalculate p.evaluate (above ++ new :: below))[above.length + (i + 1)]?
      = (recalculate p.evaluate (above ++ old :: below))[above.length + (i + 1)]? := by
  let scope := Scope.ofResults (recalculate p.evaluate above)
  have hrun (line : Line) :
      (recalculate p.evaluate (above ++ line :: below))[above.length + (i + 1)]?
        = (resultsFrom p.evaluate (scope.extend [(lineStep p.evaluate scope line).result])
          below)[i]? := by
    rw [recalculate_eq, resultsFrom_append, resultsFrom_cons, ← recalculate_eq,
      List.getElem?_append_right (by rw [recalculate_length]; omega), recalculate_length,
      Nat.add_sub_cancel_left, List.getElem?_cons_succ]
    rfl
  have hagree : scope.AgreeOff reached scope := fun _ _ => rfl
  rw [hrun, hrun]
  exact (hagree.step p new old hnew hold).results p hclosed hline hfree

/-- **An edit reaches only the lines that depend on it.** Whatever functions there are, the other
lines keep their results: those above it, and those below that neither read a name it reaches nor
look variables up. -/
theorem recalculate_modify (p : Program) (lines : List Line) (k : Nat) (text : String) {j : Nat}
    {line : Line} (hline : lines[j]? = some line) (hj : j ≠ k)
    (hfree : k < j → ¬ line.Sees Formula.LooksUp (Reached Formula.LooksUp lines k text)) :
    (recalculate p.evaluate (lines.modify k fun line => { line with text }))[j]?
      = (recalculate p.evaluate lines)[j]? := by
  rcases Nat.lt_or_gt_of_ne hj with hj | hj
  · refine recalculate_above p.evaluate ?_ hj
    rw [List.take_modify, List.modify_eq_self (List.length_take_le _ _)]
  obtain ⟨i, rfl⟩ : ∃ i, j = k + (i + 1) := ⟨j - (k + 1), by omega⟩
  have hlength : k < lines.length := by
    have := (List.getElem?_eq_some_iff.mp hline).1
    omega
  have hsplit : lines = lines.take k ++ lines[k] :: lines.drop (k + 1) := by
    rw [List.cons_getElem_drop_succ, List.take_append_drop]
  have hmodify : (lines.modify k fun line => { line with text })
      = lines.take k ++ { lines[k] with text } :: lines.drop (k + 1) :=
    List.modify_eq_take_cons_drop hlength
  have hbelow := recalculate_below p (lines.take k) (lines.drop (k + 1)) lines[k]
    { lines[k] with text } (fun name hname => .before (List.getElem?_eq_getElem hlength) hname)
    (fun name hname => .after hname) ?_ (by rwa [List.getElem?_drop, Nat.add_right_comm]) (hfree hj)
  · rwa [← hmodify, ← hsplit, List.length_take_of_le (Nat.le_of_lt hlength)] at hbelow
  · intro line hmem hsees
    obtain ⟨i, hi⟩ := List.mem_iff_getElem?.mp hmem
    rw [List.getElem?_drop] at hi
    exact Reached.of_sees (by omega) hi hsees

/-- The last line of this sheet keeps its result when the first one is edited, unlike the second. -/
theorem recalculate_modify_chain :
    let lines : List Line := Line.numbered ["x = 1", "y = x + 1", "z = 3", "z * z"]
    lines[3]? = some ⟨4, "z * z"⟩
      ∧ (recalculate Program.empty.evaluate
          (lines.modify 0 fun line => { line with text := "w = 2" }))[3]?
        = (recalculate Program.empty.evaluate lines)[3]? := by
  intro lines
  have hline : lines[3]? = some ⟨4, "z * z"⟩ := rfl
  refine ⟨hline, recalculate_modify Program.empty lines 0 "w = 2" hline (by decide) fun _ => ?_⟩
  have hreached : ∀ name, Reached Formula.LooksUp lines 0 "w = 2" name →
      name ∈ [['x'], ['w'], ['y']] := by
    intro name h
    exact h.least (by decide +kernel) (by decide +kernel) (by decide +kernel)
  have hfree : ¬ Line.Sees Formula.LooksUp (· ∈ [['x'], ['w'], ['y']]) ⟨4, "z * z"⟩ := by
    decide +kernel
  exact fun hsees => hfree (hsees.mono hreached)

/-- A line that looks variables up sees those that it does not name: by a name that it computes, or
with the eyes of a function that it calls in place. -/
theorem recalculate_modify_lookingUp :
    (¬ ∀ (p : Program) (lines : List Line) (k : Nat) (text : String) (j : Nat) (line : Line),
      lines[j]? = some line → j ≠ k →
      ¬ line.Sees (fun _ => False) (Reached (fun _ => False) lines k text) →
      (recalculate p.evaluate (lines.modify k fun line => { line with text }))[j]?
        = (recalculate p.evaluate lines)[j]?)
    ∧ ¬ ∀ (p : Program) (lines : List Line) (k : Nat) (text : String) (j : Nat) (line : Line),
      lines[j]? = some line → j ≠ k →
      (∀ line ∈ lines, ∀ word ∈ ["is_def_var", "eval"],
        word.toList ∉ Formula.names (expressionOf line.text)) →
      ¬ line.Sees (fun _ => False) (Reached (fun _ => False) lines k text) →
      (recalculate p.evaluate (lines.modify k fun line => { line with text }))[j]?
        = (recalculate p.evaluate lines)[j]? := by
  constructor
  · intro h
    let lines : List Line := Line.numbered ["av_b = 1", "len(\"\" + is_def_var(\"a\" + \"b\"))"]
    have hline : lines[1]? = some ⟨2, "len(\"\" + is_def_var(\"a\" + \"b\"))"⟩ := rfl
    have hbefore : (recalculate Program.empty.evaluate lines)[1]?.map ResultLine.text
        = some "4" := by
      decide +kernel
    have hafter : (recalculate Program.empty.evaluate
        (lines.modify 0 fun line => { line with text := "c = 1" }))[1]?.map ResultLine.text
          = some "5" := by
      decide +kernel
    rw [h Program.empty lines 0 "c = 1" 1 _ hline (by decide) ?_, hbefore] at hafter
    · exact absurd hafter (by decide)
    · have hreached : ∀ name, Reached (fun _ => False) lines 0 "c = 1" name →
          name ∈ ["av_b".toList, ['c']] := by
        intro name h
        exact h.least (by decide +kernel) (by decide +kernel) (by decide +kernel)
      have hfree : ¬ Line.Sees (fun _ => False) (· ∈ ["av_b".toList, ['c']])
          ⟨2, "len(\"\" + is_def_var(\"a\" + \"b\"))"⟩ := by
        decide +kernel
      exact fun hsees => hfree (hsees.mono hreached)
  · intro h
    let lines : List Line := Line.numbered ["x = 5", "f!(1)"]
    have hline : lines[1]? = some ⟨2, "f!(1)"⟩ := rfl
    obtain ⟨p, -, hvalues⟩ := exists_of_compiles
      (by decide +kernel : compiles "fn v_f(a) { v_x + a }" (fun p =>
        decide ((recalculate p.evaluate lines)[1]?.map ResultLine.text = some "6"
          ∧ (recalculate p.evaluate
            (lines.modify 0 fun line => { line with text := "x = 6" }))[1]?.map ResultLine.text
              = some "7")) = true)
    obtain ⟨hbefore, hafter⟩ := of_decide_eq_true hvalues
    rw [h p lines 0 "x = 6" 1 _ hline (by decide) (by decide +kernel) ?_, hbefore] at hafter
    · exact absurd hafter (by decide)
    · have hreached : ∀ name, Reached (fun _ => False) lines 0 "x = 6" name → name ∈ [['x']] := by
        intro name h
        exact h.least (by decide +kernel) (by decide +kernel) (by decide +kernel)
      have hfree : ¬ Line.Sees (fun _ => False) (· ∈ [['x']]) ⟨2, "f!(1)"⟩ := by
        decide +kernel
      exact fun hsees => hfree (hsees.mono hreached)

end SumSheet
