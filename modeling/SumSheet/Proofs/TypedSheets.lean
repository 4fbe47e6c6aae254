/-
SumSheet.Proofs.TypedSheets — a sheet that is typed is the sheet that is
read at once.

Only lines of the sheet are typed here, no commands. A sheet begins with
a single empty line, which the first line typed fills; an empty one fills
it with what it has already. So the empty lines in front are lost, and
every other line gets the number of its place, as it does in a sheet made
of all texts at once.

Each line typed is followed by a pass over the whole sheet, but a pass
over the lines so far has the results that a pass over all lines begins
with. What is printed when a line is typed is its result, which therefore
stands. `showing` keeps the results with something to show: they grow at
their end only, and what is printed is their texts.

  §1 Results  — what a line typed adds to them.
  §2 Lines    — their ids and texts.
  §3 Sessions — `IsSheetOf` is kept by every line, and so by all.
-/
import SumSheet.Proofs.Sessions

namespace SumSheet.Interactive

open Document

/-! ## §1 Results -/

/-- What is typed is a line of the sheet and no command. -/
def IsPlain (typed : String) : Prop :=
  (Text.trimStart typed.toList).head? ≠ some ':'

instance (typed : String) : Decidable (IsPlain typed) :=
  inferInstanceAs (Decidable (_ ≠ _))

/-- The results with something to show. -/
def showing (results : List ResultLine) : List ResultLine :=
  results.filter fun r => !r.text.isEmpty

theorem showing_append (first second : List ResultLine) :
    showing (first ++ second) = showing first ++ showing second :=
  List.filter_append ..

theorem rows_append (first second : List String) :
    Layout.rows (first ++ second) = Layout.rows first ++ Layout.rows second := by
  simp [Layout.rows]

/-- A result is printed on a line of its own, if it has something to show. -/
theorem rows_showing_singleton (r : ResultLine) :
    Layout.rows ((showing [r]).map ResultLine.text)
      = if r.text.isEmpty then "" else r.text ++ "\n" := by
  cases hempty : r.text.isEmpty <;> simp [showing, Layout.rows, hempty]

section

variable [Engine] {limit : Nat} {files : FileTree} {doc doc' : Document} {typed : String}

theorem program_of_append (hdone : Performs files doc (.append typed) doc') :
    doc'.program = doc.program := by
  cases hdone <;> rfl

/-- The line typed has the last result, and those before it stay, if they have anything to show. -/
theorem showing_of_append (h : doc.WellFormed limit)
    (hdone : Performs files doc (.append typed) doc') :
    ∃ r, doc'.results.getLast? = some r
      ∧ showing doc'.results = showing doc.results ++ showing [r] := by
  cases hdone with
  | @fill id _ honly =>
    have hblank : doc.results = [⟨id, none, .blank⟩] := by
      rw [h.results_eq, honly]
      rfl
    exact ⟨_, rfl, by rw [hblank]; rfl⟩
  | push _ =>
    -- the pass over all lines begins as the pass over the lines so far
    have hresults :
        (doc.withLines (doc.lines ++ [⟨doc.nextId, typed⟩])).results = doc.results ++ _ :=
      (resultsFrom_append doc.evaluator ∅ doc.lines [⟨doc.nextId, typed⟩]).trans
        (congrArg (· ++ _) h.results_eq.symm)
    refine ⟨_, by rw [hresults]; exact List.getLast?_concat, ?_⟩
    rw [hresults]
    exact showing_append ..

/-- A line that is no command is filled in or added, and its result is printed. -/
theorem response_of_plain (files : FileTree) (h : doc.WellFormed limit) (hplain : IsPlain typed) :
    ∃ doc' r, Performs files doc (.append typed) doc'
      ∧ showing doc'.results = showing doc.results ++ showing [r]
      ∧ Response files doc typed (Layout.rows ((showing [r]).map ResultLine.text)) doc' := by
  have hparse := parse_of_plain hplain
  obtain ⟨doc', hdone⟩ := exists_performs_append files doc typed
  obtain ⟨r, hlast, hshowing⟩ := showing_of_append h hdone
  have hanswer : answer files doc' (.append typed) = r.text := by
    simp [answer, resultTexts, hlast]
  refine ⟨doc', r, hdone, hshowing, ?_⟩
  rw [rows_showing_singleton, ← hanswer]
  exact .done hparse hdone

end

/-! ## §2 Lines -/

/-- The texts of a sheet without the empty ones in front. -/
def filled (texts : List String) : List String :=
  texts.dropWhile (·.isEmpty)

/-- The first of them is not empty. -/
theorem filled_ne_empty (texts : List String) : filled texts ≠ [""] := by
  intro heq
  have hhead := List.head?_dropWhile_not (·.isEmpty) texts
  rw [show texts.dropWhile (·.isEmpty) = [""] from heq] at hhead
  cases hhead

/-- An empty text at the end is in front if there is no other. -/
theorem filled_concat (texts : List String) (text : String) :
    filled (texts ++ [text])
      = if filled texts = [] then filled [text] else filled texts ++ [text] := by
  simp only [filled, List.dropWhile_append, List.isEmpty_iff]
  congr

theorem linesOf_of_ne_nil {texts : List String} (h : texts ≠ []) :
    linesOf texts = Line.numbered texts := by
  rw [linesOf, if_neg (by simpa using h)]

theorem numbered_concat (texts : List String) (text : String) :
    Line.numbered (texts ++ [text]) = Line.numbered texts ++ [⟨texts.length + 1, text⟩] := by
  simp [Line.numbered]

section

variable [Engine] {files : FileTree} {doc doc' : Document} {typed : String}

/-- Lines made of texts leave the next number to the next line. -/
theorem nextId_of_linesOf {texts : List String} (h : texts ≠ [])
    (hlines : doc.lines = linesOf texts) : doc.nextId = texts.length + 1 := by
  have hpos : 0 < texts.length := List.length_pos_of_ne_nil h
  apply Nat.le_antisymm
  · have hle := nextId_le (hlines ▸ numbered_linesOf texts)
    omega
  · obtain ⟨front, last, rfl⟩ := (List.eq_nil_or_concat' texts).resolve_left h
    have hlast : (⟨front.length + 1, last⟩ : Line) ∈ doc.lines := by
      rw [hlines, linesOf_of_ne_nil h, numbered_concat]
      simp
    simpa using id_lt_nextId hlast

/-- The line typed gets the id that it has in the sheet made of all texts. -/
theorem lines_of_append {texts : List String} (hlines : doc.lines = linesOf (filled texts))
    (hdone : Performs files doc (.append typed) doc') :
    doc'.lines = linesOf (filled (texts ++ [typed])) := by
  rw [filled_concat]
  by_cases hnone : filled texts = []
  -- nothing but empty texts so far: the sheet still has its first line, which is filled
  · rw [hnone] at hlines
    rw [if_pos hnone]
    cases hdone with
    | fill honly =>
      cases hlines.symm.trans honly
      by_cases hempty : typed = ""
      · subst hempty
        rfl
      · simp [filled, hempty, linesOf, Line.numbered, withLines, Document.recalculate]
    | push hother => exact absurd hlines (hother 1)
  -- a first line that is not empty is never filled again
  · rw [if_neg hnone, linesOf_of_ne_nil (by simp)]
    cases hdone with
    | fill honly =>
      have hone : filled texts = [""] := by
        rw [← numbered_texts (filled texts), ← linesOf_of_ne_nil hnone, ← hlines, honly]
        rfl
      exact absurd hone (filled_ne_empty texts)
    | push _ =>
      rw [numbered_concat, ← linesOf_of_ne_nil hnone, ← nextId_of_linesOf hnone hlines, ← hlines]
      rfl

end

/-! ## §3 Sessions -/

section

variable [Engine]

/-- So far, lines with these texts have been typed. -/
structure Session.IsSheetOf (session : Session) (texts : List String) : Prop where
  wellFormed : ∃ limit, session.document.WellFormed limit
  lines_eq : session.document.lines = linesOf (filled texts)
  program_eq : session.document.program = Engine.empty
  output_eq : session.output
    = banner ++ "\n" ++ Layout.rows ((showing session.document.results).map ResultLine.text)
  quit_eq : session.quit = false

namespace Session.IsSheetOf

variable {files : FileTree} {session : Session} {texts : List String} {typed : String}

/-- The results are those of the sheet made of all texts. -/
theorem results_eq (h : session.IsSheetOf texts) :
    session.document.results = (ofTexts (filled texts)).results := by
  obtain ⟨limit, hdoc⟩ := h.wellFormed
  rw [hdoc.results_eq, h.lines_eq, evaluator, h.program_eq]
  rfl

/-- One more line is typed, and what has been printed stays. -/
theorem typing (h : session.IsSheetOf texts) (hplain : IsPlain typed) :
    (session.typing files [typed]).IsSheetOf (texts ++ [typed])
      ∧ showing session.document.results
        <+: showing (session.typing files [typed]).document.results := by
  obtain ⟨limit, hdoc⟩ := h.wellFormed
  obtain ⟨doc', r, hdone, hshowing, hresponse⟩ := response_of_plain files hdoc hplain
  rw [typing_of_response hdoc h.quit_eq hresponse]
  refine ⟨⟨wellFormed_of_performs hdoc hdone, lines_of_append h.lines_eq hdone,
    (program_of_append hdone).trans h.program_eq, ?_, rfl⟩, ?_⟩
  · simp only [h.output_eq, hshowing, List.map_append, rows_append, String.append_assoc]
  · exact hshowing ▸ List.prefix_append _ _

end Session.IsSheetOf

section

variable {files : FileTree}

theorem isSheetOf_nil (files : FileTree) : (run files .new []).IsSheetOf [] := by
  refine ⟨⟨_, WellFormed.opening .blank⟩, rfl, rfl, ?_, rfl⟩
  rw [show (run files .new []).document.results = [⟨1, none, .blank⟩] from rfl]
  rfl

/-- All lines are typed. -/
theorem isSheetOf_run {inputs : List String} (h : ∀ typed ∈ inputs, IsPlain typed) :
    (run files .new inputs).IsSheetOf inputs := by
  induction inputs using List.reverseRecOn with
  | nil => exact isSheetOf_nil files
  | append_singleton before typed ih =>
    rw [run_append]
    exact ((ih fun other hother => h other (by simp [hother])).typing (h typed (by simp))).1

/-- The results printed stay. -/
theorem showing_run_append {before behind : List String}
    (h : ∀ typed ∈ before ++ behind, IsPlain typed) :
    showing (run files .new before).document.results
      <+: showing (run files .new (before ++ behind)).document.results := by
  induction behind using List.reverseRecOn with
  | nil => rw [List.append_nil]
  | append_singleton front typed ih =>
    rw [← List.append_assoc] at h ⊢
    have hfront : ∀ other ∈ before ++ front, IsPlain other := fun other hother =>
      h other (List.mem_append_left _ hother)
    rw [run_append]
    exact (ih hfront).trans ((isSheetOf_run hfront).typing (h typed (by simp))).2

end

/-- **A sheet that is typed is the sheet that is read at once.** If no line of a text begins with a
colon behind blanks, typing them makes the same lines and results as a document of all of them,
without the empty ones in front, and prints what it has to show. Nothing that has been printed is
changed by what is typed later. -/
theorem run_new_eq (files : FileTree) (text : String)
    (h : ∀ typed ∈ Text.lines text, IsPlain typed) :
    let session := run files .new (Text.lines text)
    let doc := ofTexts (filled (Text.lines text))
    session.document.lines = doc.lines
      ∧ session.document.results = doc.results
      ∧ session.output = banner ++ "\n" ++ Layout.rows (doc.resultTexts.filter (!·.isEmpty))
      ∧ session.quit = false
      ∧ ∀ before behind, Text.lines text = before ++ behind →
        let earlier := run files .new before
        earlier.output
            = banner ++ "\n" ++ Layout.rows (earlier.document.resultTexts.filter (!·.isEmpty))
          ∧ showing earlier.document.results <+: showing session.document.results := by
  intro session doc
  have htexts (results : List ResultLine) : (showing results).map ResultLine.text
      = (results.map ResultLine.text).filter (!·.isEmpty) := by
    rw [showing, List.filter_map]
    rfl
  have hall : session.IsSheetOf (Text.lines text) := isSheetOf_run h
  refine ⟨hall.lines_eq, hall.results_eq, ?_, hall.quit_eq, fun before behind hsplit => ?_⟩
  · rw [hall.output_eq, htexts, hall.results_eq]
    rfl
  · rw [hsplit] at h
    have hbefore : (run files .new before).IsSheetOf before :=
      isSheetOf_run fun typed htyped => h typed (List.mem_append_left _ htyped)
    refine ⟨?_, ?_⟩
    · rw [hbefore.output_eq, htexts]
      rfl
    · simp only [session, hsplit]
      exact showing_run_append h

end

/-- Two empty lines in front are lost and one in between is kept. A variable that is bound again
leaves the result above as it was printed. -/
theorem run_new_eq_rebinding :
    let text := "\n\nx = 4\n\ny\nx = x + 1\n"
    let session := run (.empty []) .new (Text.lines text)
    let doc := ofTexts ["x = 4", "", "y", "x = x + 1"]
    let earlier := run (.empty []) .new ["", "", "x = 4"]
    (∀ typed ∈ Text.lines text, IsPlain typed)
      ∧ session.document.lines = doc.lines
      ∧ session.document.results = doc.results
      ∧ doc.resultTexts = ["x = 4", "", "Invalid expression", "x = 5"]
      ∧ session.output = banner ++ "\n" ++ Layout.rows (doc.resultTexts.filter (!·.isEmpty))
      ∧ earlier.output = banner ++ "\n" ++ "x = 4\n"
      ∧ showing earlier.document.results <+: showing session.document.results := by
  intro text session doc earlier
  have hplain : ∀ typed ∈ Text.lines text, IsPlain typed := by decide +kernel
  have hfilled : filled (Text.lines text) = ["x = 4", "", "y", "x = x + 1"] := by decide +kernel
  obtain ⟨hlines, hresults, houtput, _, hearlier⟩ := run_new_eq (.empty []) text hplain
  rw [hfilled] at hlines hresults houtput
  exact ⟨hplain, hlines, hresults, by decide +kernel, houtput, by decide +kernel,
    (hearlier ["", "", "x = 4"] ["", "y", "x = x + 1"] (by decide +kernel)).2⟩

end SumSheet.Interactive
