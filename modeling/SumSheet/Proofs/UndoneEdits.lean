/-
SumSheet.Proofs.UndoneEdits — what an operation on lines changes, and how
it is taken back.

An operation names its line by the id. No two lines have the same id, so
the lines fall into those before it, the line, and those behind it, and
what is done is said of these three (`ActsAt`). Every operation makes all
results anew, from the lines and the functions alone. So lines that are
what they were have the results that they had, and only lines have to be
brought back (`Relined`).

A removed line is gone, for its id is not given again at its place; what
can be taken back is an insertion and a new text. `Undoes` pairs a list of
operations with the list that takes them back, the last one first. The
induction is on that pair: the first operation of all is taken back at the
end, on a document that has again the lines which it left.

  §1 Lists   — a list that is changed at the end of its front.
  §2 Relined — a document with other lines and the same functions.
  §3 Acts    — each operation on lines, at its line.
  §4 Undoing — one operation, and a list of them.
  §5 Runs    — the theorem, for every document that can be reached.
-/
import SumSheet.Proofs.FailedEdits

namespace SumSheet

namespace Document

/-! ## §1 Lists -/

section

variable {α : Type} (before behind : List α) (x y : α)

theorem modify_at_length (f : α → α) :
    (before ++ x :: behind).modify before.length f = before ++ f x :: behind := by
  induction before with
  | nil => rfl
  | cons first before ih => simp [ih]

theorem insertIdx_behind :
    (before ++ x :: behind).insertIdx (before.length + 1) y = before ++ x :: y :: behind := by
  induction before with
  | nil => rfl
  | cons first before ih => simp [ih]

theorem eraseIdx_at_length : (before ++ x :: behind).eraseIdx before.length = before ++ behind := by
  induction before with
  | nil => rfl
  | cons first before ih => simp [ih]

end

section

variable [Engine]

/-! ## §2 Relined -/

/-- The second document has these lines and the functions of the first. -/
structure Relined (doc doc' : Document) (lines : List Line) : Prop where
  lines_eq : doc'.lines = lines
  results_eq : doc'.results = SumSheet.recalculate doc.evaluator lines
  program_eq : doc'.program = doc.program
  files_eq : doc'.functionFiles = doc.functionFiles
  script_eq : doc'.script = doc.script

section

variable {doc doc' doc'' : Document} {lines lines' : List Line}

theorem relined_withLines (doc : Document) (lines : List Line) :
    Relined doc (doc.withLines lines) lines :=
  ⟨rfl, rfl, rfl, rfl, rfl⟩

theorem Relined.trans (h : Relined doc doc' lines) (h' : Relined doc' doc'' lines') :
    Relined doc doc'' lines' where
  lines_eq := h'.lines_eq
  results_eq := by rw [h'.results_eq, evaluator, h.program_eq, evaluator]
  program_eq := h'.program_eq.trans h.program_eq
  files_eq := h'.files_eq.trans h.files_eq
  script_eq := h'.script_eq.trans h.script_eq

theorem WellFormed.relined {limit : Nat} (h : doc.WellFormed limit) : Relined doc doc doc.lines :=
  ⟨rfl, h.results_eq, rfl, rfl, rfl⟩

end

/-- The operation reads files with functions. -/
def Edit.loads : Edit → Bool
  | .loadFunctions _ _ | .reloadFunctions _ => true
  | _ => false

/-- An operation that loads nothing has to do with lines alone. -/
theorem lines_of_edit {doc doc' : Document} {e : Edit} (hloads : e.loads = false)
    (hedit : doc.edit e = ⟨.ok (), doc'⟩) : doc' = doc ∨ ∃ lines, doc' = doc.withLines lines := by
  cases e with
  | setText id text =>
    simp only [edit, setText_eq] at hedit
    split at hedit <;> cases hedit
    exact .inr ⟨_, rfl⟩
  | insertAfter id text =>
    simp only [edit, insertAfter_eq] at hedit
    split at hedit <;> cases hedit
    exact .inr ⟨_, rfl⟩
  | push text =>
    cases hedit
    exact .inr ⟨_, rfl⟩
  | remove id =>
    simp only [edit, remove_eq] at hedit
    split at hedit
    · cases hedit
    · split at hedit <;> cases hedit
      exact .inr ⟨_, rfl⟩
  | removeIfEmpty id =>
    simp only [edit, removeIfEmpty_eq] at hedit
    split at hedit
    · cases hedit
    · split at hedit <;> cases hedit
      · exact .inr ⟨_, rfl⟩
      · exact .inl rfl
  | replaceAll texts =>
    cases hedit
    exact .inr ⟨_, rfl⟩
  | recalculate =>
    cases hedit
    exact .inr ⟨doc.lines, rfl⟩
  | loadFunctions files path => cases hloads
  | reloadFunctions files => cases hloads

/-! ## §3 Acts -/

/-- What the operations that name this line do, where it stands between these others. -/
structure ActsAt (doc : Document) (before : List Line) (line : Line) (behind : List Line) :
    Prop where
  setText (text : String) : ∃ doc', doc.setText line.id text = ⟨.ok (), doc'⟩
    ∧ Relined doc doc' (before ++ ⟨line.id, text⟩ :: behind)
  insertAfter (text : String) : ∃ new doc', doc.insertAfter line.id text = ⟨.ok new, doc'⟩
    ∧ (∀ other ∈ doc.lines, other.id < new)
    ∧ Relined doc doc' (before ++ line :: ⟨new, text⟩ :: behind)
  /-- The last line stays. -/
  remove : if before ++ behind = [] then doc.remove line.id = ⟨.error .lastLine, doc⟩
    else ∃ doc', doc.remove line.id = ⟨.ok (), doc'⟩ ∧ Relined doc doc' (before ++ behind)
  removeIfEmpty : if line.text = "" ∧ before ++ behind ≠ [] then
      ∃ doc', doc.removeIfEmpty line.id = ⟨.ok true, doc'⟩ ∧ Relined doc doc' (before ++ behind)
    else doc.removeIfEmpty line.id = ⟨.ok false, doc⟩

section

variable {limit : Nat} {doc : Document} {before behind : List Line} {line : Line}

/-- There is another line. -/
theorem one_lt_size_iff (hlines : doc.lines = before ++ line :: behind) :
    1 < doc.size ↔ before ++ behind ≠ [] := by
  rw [size, hlines, ← List.length_pos_iff]
  simp only [List.length_append, List.length_cons]
  omega

theorem actsAt (h : Numbered limit doc.lines) (hlines : doc.lines = before ++ line :: behind) :
    doc.ActsAt before line behind := by
  have hline : doc.lines[before.length]? = some line := by simp [hlines]
  have hmore := one_lt_size_iff hlines
  refine ⟨fun text => ⟨_, setText_at h hline text, ?_⟩,
    fun text => ⟨_, _, insertAfter_at h hline text, fun other => id_lt_nextId, ?_⟩, ?_, ?_⟩
  · rw [hlines, modify_at_length]
    exact relined_withLines _ _
  · rw [hlines, insertIdx_behind]
    exact relined_withLines _ _
  · rw [remove_at h hline]
    split
    · rename_i hnone
      exact if_pos (Nat.not_lt.mp fun hlt => hmore.mp hlt hnone)
    · rename_i hsome
      refine ⟨_, if_neg (Nat.not_le.mpr (hmore.mpr hsome)), ?_⟩
      rw [hlines, eraseIdx_at_length]
      exact relined_withLines _ _
  · simp only [removeIfEmpty_at h hline, String.isEmpty_iff, hmore]
    split
    · refine ⟨_, rfl, ?_⟩
      rw [hlines, eraseIdx_at_length]
      exact relined_withLines _ _
    · rfl

end

theorem push_relined (doc : Document) (text : String) :
    (∀ other ∈ doc.lines, other.id < (doc.push text).1)
      ∧ Relined doc (doc.push text).2 (doc.lines ++ [⟨(doc.push text).1, text⟩]) :=
  ⟨fun _ => id_lt_nextId, relined_withLines _ _⟩

/-! ## §4 Undoing -/

/-- The operations that remove a line: one of them does so only if the line is empty. -/
inductive Removes (line : Line) : Edit → Prop
  | remove : Removes line (.remove line.id)
  | removeIfEmpty (hempty : line.text = "") : Removes line (.removeIfEmpty line.id)

/-- The second operation takes back the first: it removes the line that has just been inserted, or
sets the old text again. -/
inductive TakesBack (doc : Document) : Edit → Edit → Prop
  | setText {line : Line} {text : String} (hline : line ∈ doc.lines) :
    doc.TakesBack (.setText line.id text) (.setText line.id line.text)
  | insertAfter {id new : Nat} {text : String} {doc' : Document} {back : Edit}
    (hinsert : doc.insertAfter id text = ⟨.ok new, doc'⟩) (hback : Removes ⟨new, text⟩ back) :
    doc.TakesBack (.insertAfter id text) back
  | push {text : String} {back : Edit} (hback : Removes ⟨(doc.push text).1, text⟩ back) :
    doc.TakesBack (.push text) back

/-- The document that an operation gives if it succeeds. -/
def edited (doc : Document) (e : Edit) : Except Error Document :=
  (doc.edit e).success

/-- The second operations take back the first ones, in reverse order. -/
inductive Undoes : Document → List Edit → List Edit → Prop
  | nil {doc : Document} : Undoes doc [] []
  | cons {doc doc' : Document} {e back : Edit} {edits backs : List Edit}
    (hedit : doc.edit e = ⟨.ok (), doc'⟩) (hback : doc.TakesBack e back)
    (hrest : Undoes doc' edits backs) : Undoes doc (e :: edits) (backs ++ [back])

section

variable {limit limit' : Nat} {doc doc' doc'' : Document}

theorem Removes.edit_eq {before behind : List Line} {line : Line} {back : Edit}
    (hback : Removes line back) (h : Numbered limit doc.lines)
    (hlines : doc.lines = before ++ line :: behind) (hmore : before ++ behind ≠ []) :
    ∃ doc', doc.edit back = ⟨.ok (), doc'⟩ ∧ Relined doc doc' (before ++ behind) := by
  have hacts := actsAt h hlines
  cases hback with
  | remove =>
    have hremove := hacts.remove
    rwa [if_neg hmore] at hremove
  | removeIfEmpty hempty =>
    have hremove := hacts.removeIfEmpty
    rw [if_pos ⟨hempty, hmore⟩] at hremove
    obtain ⟨doc', hremove, hrelined⟩ := hremove
    exact ⟨doc', by rw [edit, hremove]; rfl, hrelined⟩

/-- An operation is taken back on any document with the lines that it left. -/
theorem TakesBack.edit_eq {e back : Edit} (hback : doc.TakesBack e back)
    (h : Numbered limit doc.lines) (h' : Numbered limit' doc'.lines)
    (hedit : doc.edit e = ⟨.ok (), doc'⟩) (hagain : Relined doc' doc'' doc'.lines) :
    ∃ undone, doc''.edit back = ⟨.ok (), undone⟩ ∧ Relined doc undone doc.lines := by
  rw [← hagain.lines_eq] at h'
  cases hback with
  | @setText line text hline =>
    obtain ⟨before, behind, hlines⟩ := List.append_of_mem hline
    obtain ⟨set, hset, hrelined⟩ := (actsAt h hlines).setText text
    obtain rfl := (Answer.mk.inj (hset.symm.trans hedit)).2
    have hlines' := hagain.lines_eq.trans hrelined.lines_eq
    obtain ⟨undone, hundone, hback⟩ := (actsAt h' hlines').setText line.text
    rw [hlines]
    exact ⟨undone, hundone, (hrelined.trans hagain).trans hback⟩
  | @insertAfter id new text doc₁ back hinsert hremoves =>
    obtain ⟨line, hline, rfl⟩ : ∃ line ∈ doc.lines, line.id = id := by
      by_contra hnone
      push Not at hnone
      have hfails : (doc.insertAfter id text).result = .error (.unknownLine id) :=
        insertAfter_eq_error_iff.mpr (.insertAfter hnone)
      rw [hinsert] at hfails
      cases hfails
    obtain ⟨before, behind, hlines⟩ := List.append_of_mem hline
    obtain ⟨_, _, hinsert', -, hrelined⟩ := (actsAt h hlines).insertAfter text
    cases hinsert'.symm.trans hinsert
    rw [edit, hinsert] at hedit
    cases hedit
    have hlines' := hagain.lines_eq.trans hrelined.lines_eq
    rw [List.append_cons] at hlines'
    obtain ⟨undone, hundone, hback⟩ := hremoves.edit_eq h' hlines' (by simp)
    rw [hlines, List.append_cons]
    exact ⟨undone, hundone, (hrelined.trans hagain).trans hback⟩
  | @push text back hremoves =>
    have hrelined := (push_relined doc text).2
    cases hedit
    have hlines' := hagain.lines_eq.trans hrelined.lines_eq
    obtain ⟨undone, hundone, hback⟩ :=
      hremoves.edit_eq h' hlines' (by simpa using h.ne_nil)
    rw [List.append_nil] at hback
    exact ⟨undone, hundone, (hrelined.trans hagain).trans hback⟩

/-- A list of operations is taken back from its end. -/
theorem Undoes.foldlM_eq {edits backs : List Edit} (hundoes : doc.Undoes edits backs)
    (h : doc.WellFormed limit) :
    ∃ undone, (edits ++ backs).foldlM edited doc = .ok undone
      ∧ Relined doc undone doc.lines := by
  induction hundoes generalizing limit with
  | nil => exact ⟨_, rfl, h.relined⟩
  | @cons doc doc' e back edits backs hedit hback _ ih =>
    have h' := wellFormed_after (o := ⟨limit, 0⟩) h e
    rw [after, hedit] at h'
    obtain ⟨again, hagain, hrelined⟩ := ih h'
    obtain ⟨undone, hundone, hlines⟩ := hback.edit_eq h.numbered h'.numbered hedit hrelined
    refine ⟨undone, ?_, hlines⟩
    rw [List.cons_append, ← List.append_assoc, List.foldlM_cons, edited, hedit]
    show (edits ++ backs ++ [back]).foldlM edited doc' = .ok undone
    rw [List.foldlM_append, hagain]
    show [back].foldlM edited again = .ok undone
    rw [List.foldlM_cons, edited, hundone]
    rfl

end

/-! ## §5 Runs -/

/-- **An operation on lines changes one line, and what is done to lines can be undone.** Whatever
has been done to a document, the operations that name one of its lines act at that line, and a new
line has an id above all others; files and script stay as they are, unless they are loaded. Any list
of insertions and new texts is taken back by the list of removals and old texts in reverse order. -/
theorem edits_undone (opening : Opening) (earlier : List Edit) :
    let doc := opening.document.run earlier
    (∀ line ∈ doc.lines, ∃ before behind, doc.lines = before ++ line :: behind
        ∧ doc.ActsAt before line behind)
      ∧ (∀ text, (∀ other ∈ doc.lines, other.id < (doc.push text).1)
        ∧ Relined doc (doc.push text).2 (doc.lines ++ [⟨(doc.push text).1, text⟩]))
      ∧ (∀ e doc', e.loads = false → doc.edit e = ⟨.ok (), doc'⟩ →
        doc'.functionFiles = doc.functionFiles ∧ doc'.script = doc.script)
      ∧ ∀ edits backs, doc.Undoes edits backs →
        ∃ undone, (edits ++ backs).foldlM edited doc = .ok undone
          ∧ undone.lines = doc.lines ∧ undone.results = doc.results := by
  intro doc
  have h := wellFormed_foldl (o := opening.origin) (WellFormed.opening opening) earlier
  refine ⟨?_, push_relined doc, ?_, ?_⟩
  · intro line hline
    obtain ⟨before, behind, hlines⟩ := List.append_of_mem hline
    exact ⟨before, behind, hlines, actsAt h.numbered hlines⟩
  · intro e doc' hloads hedit
    rcases lines_of_edit hloads hedit with rfl | ⟨lines, rfl⟩
    · exact ⟨rfl, rfl⟩
    · exact ⟨rfl, rfl⟩
  · intro edits backs hundoes
    obtain ⟨undone, hundone, hrelined⟩ := hundoes.foldlM_eq h
    exact ⟨undone, hundone, hrelined.lines_eq, hrelined.results_eq.trans h.results_eq.symm⟩

end

/-- A line between two others, its text set anew, and an empty line at the end: all of it is taken
back. -/
theorem edits_undone_nested :
    let doc := (Opening.ofTexts ["x = 1", "x + 1"]).document.run []
    let edits : List Edit := [.insertAfter 1 "x = 2", .setText 3 "x = 5", .push ""]
    let backs : List Edit := [.removeIfEmpty 4, .setText 3 "x = 2", .remove 3]
    doc.resultTexts = ["x = 1", "2"] ∧ (doc.run edits).resultTexts = ["x = 1", "x = 5", "6", ""]
      ∧ doc.Undoes edits backs
      ∧ ∃ undone, (edits ++ backs).foldlM edited doc = .ok undone
        ∧ undone.lines = doc.lines ∧ undone.results = doc.results := by
  intro doc edits backs
  have hpush : Undoes (doc.run [.insertAfter 1 "x = 2", .setText 3 "x = 5"]) [.push ""]
      ([] ++ [.removeIfEmpty 4]) := .cons rfl (.push (.removeIfEmpty rfl)) .nil
  have hset : Undoes (doc.run [.insertAfter 1 "x = 2"]) [.setText 3 "x = 5", .push ""]
      ([.removeIfEmpty 4] ++ [.setText 3 "x = 2"]) :=
    .cons rfl (@TakesBack.setText _ _ ⟨3, "x = 2"⟩ _ (.tail _ (.head _))) hpush
  have hundoes : doc.Undoes edits ([.removeIfEmpty 4, .setText 3 "x = 2"] ++ [.remove 3]) :=
    .cons rfl (@TakesBack.insertAfter _ _ _ 3 _ _ _ rfl .remove) hset
  exact ⟨by decide +kernel, by decide +kernel, hundoes,
    (edits_undone (.ofTexts ["x = 1", "x + 1"]) []).2.2.2 edits backs hundoes⟩

end Document

end SumSheet
