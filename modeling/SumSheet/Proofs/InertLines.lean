/-
SumSheet.Proofs.InertLines — lines that bind nothing can be taken out of
a sheet or put into it, and no other result changes.

Only an assignment that succeeds changes the scope. Blank lines, failures
of either kind, bare expressions and percentages leave it as it was. So a
pass over all lines and a pass over some of them are in the same scope at
every line they share, if the lines that only the first one has assign
nothing.

There are two ways to say that they assign nothing. `UnassignedOff` asks
the results of the longer sheet, from which lines are deleted;
`InertOff` tries each line in the scope of the shorter sheet, into which
lines are inserted. They come to the same (`unassignedOff_iff`), and
either makes both passes agree on the lines they share
(`recalculate_selected`).

  §1 Selections — the entries of a list at some positions.
  §2 Passes     — one over all lines beside one over some of them, by
                  induction on the lines, from any scope.
  §3 Sheets     — the theorem.
-/
import SumSheet.Proofs.PassScope

namespace SumSheet

/-! ## §1 Selections -/

section

variable {α : Type} (kept : Nat → Bool)

/-- The entries of a list at the positions that are kept. -/
def selected (entries : List α) : List α :=
  (entries.zipIdx.filter fun e => kept e.2).map (·.1)

theorem selected_cons (x : α) (rest : List α) :
    selected kept (x :: rest)
      = if kept 0 then x :: selected (fun k => kept (k + 1)) rest
        else selected (fun k => kept (k + 1)) rest := by
  have hrest : selected (fun k => kept (k + 1)) rest
      = (((rest.zipIdx).map (Prod.map id (· + 1))).filter fun e => kept e.2).map (·.1) := by
    simp [selected, List.filter_map, Function.comp_def]
  rw [hrest, selected, List.zipIdx_cons', List.filter_cons]
  split <;> rfl

/-- A statement about all entries and their positions, for the first entry and for the others. -/
theorem forall_zipIdx_cons {p : α × Nat → Prop} {x : α} {rest : List α} :
    (∀ e ∈ (x :: rest).zipIdx, p e) ↔ p (x, 0) ∧ ∀ e ∈ rest.zipIdx, p (e.1, e.2 + 1) := by
  rw [List.zipIdx_cons', List.forall_mem_cons, List.forall_mem_map]
  rfl

end

/-! ## §2 Passes -/

section

variable (evaluator : Evaluator)

/-- Off the kept positions, the results assign nothing. -/
def UnassignedOff (kept : Nat → Bool) (results : List ResultLine) : Prop :=
  ∀ e ∈ results.zipIdx, kept e.2 = false → e.1.assigned = none

instance (kept : Nat → Bool) (results : List ResultLine) :
    Decidable (UnassignedOff kept results) :=
  inferInstanceAs (Decidable (∀ e ∈ results.zipIdx, kept e.2 = false → e.1.assigned = none))

/-- The result of a line behind those that are kept of some lines, the first of them in this
scope. -/
def resultBehind (scope : Scope) (kept : Nat → Bool) (above : List Line) (line : Line) :
    ResultLine :=
  let behind := scope.extend (resultsFrom evaluator scope (selected kept above))
  (lineStep evaluator behind line).result

/-- Each line off the kept positions assigns nothing behind the kept lines above it. -/
def InertOff (scope : Scope) (kept : Nat → Bool) (lines : List Line) : Prop :=
  ∀ e ∈ lines.zipIdx, kept e.2 = false →
    (resultBehind evaluator scope kept (lines.take e.2) e.1).assigned = none

theorem extend_of_unassigned (scope : Scope) {r : ResultLine} (h : r.assigned = none) :
    scope.extend [r] = scope :=
  Scope.extend_of_binding?_none scope (by simp [ResultLine.binding?, h])

/-- A line at the head is either kept and leads the kept ones, or leaves the scope to them. -/
theorem resultBehind_cons {scope : Scope} {kept : Nat → Bool} {first : Line}
    (h : kept 0 = false → (lineStep evaluator scope first).result.assigned = none)
    (above : List Line) (line : Line) :
    resultBehind evaluator scope kept (first :: above) line
      = resultBehind evaluator (scope.extend [(lineStep evaluator scope first).result])
          (fun k => kept (k + 1)) above line := by
  rw [resultBehind, resultBehind, selected_cons]
  split
  · rw [resultsFrom_cons, ← List.singleton_append, Scope.extend_append]
  · rename_i hdropped
    rw [extend_of_unassigned scope (h (by simpa using hdropped))]

/-- **Lines assign nothing in the longer sheet exactly if they assign nothing where they are put
into the shorter one.** -/
theorem unassignedOff_iff (scope : Scope) (kept : Nat → Bool) (lines : List Line) :
    UnassignedOff kept (resultsFrom evaluator scope lines)
      ↔ InertOff evaluator scope kept lines := by
  induction lines generalizing scope kept with
  | nil => simp [UnassignedOff, InertOff, resultsFrom, stepsFrom]
  | cons first rest ih =>
    rw [UnassignedOff, InertOff, resultsFrom_cons, forall_zipIdx_cons, forall_zipIdx_cons]
    refine and_congr_right fun hfirst => ?_
    have htail := ih (scope.extend [(lineStep evaluator scope first).result]) fun k => kept (k + 1)
    refine htail.trans ?_
    simp only [InertOff, List.take_succ_cons, resultBehind_cons evaluator hfirst]

/-- A pass over the kept lines gives the kept results, if the other results assign nothing. -/
theorem resultsFrom_selected {scope : Scope} {kept : Nat → Bool} {lines : List Line}
    (h : UnassignedOff kept (resultsFrom evaluator scope lines)) :
    resultsFrom evaluator scope (selected kept lines)
      = selected kept (resultsFrom evaluator scope lines) := by
  induction lines generalizing scope kept with
  | nil => rfl
  | cons first rest ih =>
    rw [UnassignedOff, resultsFrom_cons, forall_zipIdx_cons] at h
    obtain ⟨hfirst, hrest⟩ := h
    have htail : UnassignedOff (fun k => kept (k + 1))
        (resultsFrom evaluator (scope.extend [(lineStep evaluator scope first).result]) rest) :=
      hrest
    rw [resultsFrom_cons, selected_cons, selected_cons, ← ih htail]
    split
    · rw [resultsFrom_cons]
    · rename_i hdropped
      rw [extend_of_unassigned scope (hfirst (by simpa using hdropped))]

/-! ## §3 Sheets -/

/-- **Lines that bind nothing are inert.** If the results of some lines assign nothing, deleting
these lines deletes their results and changes no other. If some lines assign nothing where they are
put between the lines of a sheet, inserting them inserts their results and changes no other. -/
theorem recalculate_selected (lines : List Line) (kept : Nat → Bool) :
    let results := recalculate evaluator lines
    let keptResults := recalculate evaluator (selected kept lines)
    (UnassignedOff kept results → keptResults = selected kept results)
      ∧ (InertOff evaluator ∅ kept lines → selected kept results = keptResults) :=
  ⟨resultsFrom_selected evaluator,
    fun h =>
      (resultsFrom_selected evaluator ((unassignedOff_iff evaluator ∅ kept lines).mpr h)).symm⟩

end

/-- Between an assignment and a line that reads it there can be a blank line, a failed assignment to
the same variable, a percentage and an expression that fails. -/
theorem recalculate_selected_between :
    let evaluator := Script.Program.empty.evaluate
    let lines : List Line :=
      [⟨4, "x = 4"⟩, ⟨9, " "⟩, ⟨2, "x = y"⟩, ⟨7, "20% of 50"⟩, ⟨3, "x = \"a\""⟩, ⟨5, "1 +"⟩,
        ⟨1, "x + 1"⟩]
    let kept : Nat → Bool := fun k => k == 0 || k == 6
    UnassignedOff kept (recalculate evaluator lines) ∧ InertOff evaluator ∅ kept lines
      ∧ (recalculate evaluator lines).map ResultLine.text
        = ["x = 4", "", "Invalid expression", "10", "Invalid assignment", "Invalid expression", "5"]
      ∧ recalculate evaluator [⟨4, "x = 4"⟩, ⟨1, "x + 1"⟩]
        = selected kept (recalculate evaluator lines)
      ∧ selected kept (recalculate evaluator lines)
        = recalculate evaluator [⟨4, "x = 4"⟩, ⟨1, "x + 1"⟩] := by
  intro evaluator lines kept
  have hunassigned : UnassignedOff kept (recalculate evaluator lines) := by decide +kernel
  have hinert : InertOff evaluator ∅ kept lines :=
    (unassignedOff_iff evaluator ∅ kept lines).mp hunassigned
  obtain ⟨hdeleted, hinserted⟩ := recalculate_selected evaluator lines kept
  exact ⟨hunassigned, hinert, by decide +kernel, hdeleted hunassigned, hinserted hinert⟩

end SumSheet
