/-
SumSheet.Proofs.Columns — where the separators of a printed sheet stand.

The results are printed beside the lines. Each line fills the width of
the longest one with blanks, and behind that comes the separator, so all
separators stand in one column (`SeparatesAt`). The listing puts the
number of the line in front. The column of numbers is three characters
wide, however many lines there are, and a number with more digits moves
its row to the right: up to 999 lines the separators stand in one column,
and from line 1000 on they do not.

Widths are counted in characters, and a text is never cut. A row is what
stands between two line feeds (`Prints`), so that neither texts nor
results have a line feed in them is what makes one row of each line.

  §1 Rows    — what is printed, between its line feeds.
  §2 Widths  — of the longest text, and of numbers.
  §3 Columns — of a row, and of a row behind something else.
  §4 Sheets  — the theorem, for every document that can be reached.
-/
import SumSheet.Proofs.CommandRows
import SumSheet.Proofs.DocumentInvariant

namespace SumSheet.Layout

/-! ## §1 Rows -/

/-- The output consists of these rows: they are what stands in front of its line feeds, and nothing
stands behind the last one. -/
def Prints (output : String) (rows : List String) : Prop :=
  output.toList.splitOn '\n' = rows.map String.toList ++ [[]]

theorem prints_rows {texts : List String} (h : ∀ text ∈ texts, '\n' ∉ text.toList) :
    Prints (rows texts) texts := by
  unfold Prints
  induction texts with
  | nil => simp [rows]
  | cons text texts ih =>
    have hrows : (rows (text :: texts)).toList = text.toList ++ '\n' :: (rows texts).toList := by
      simp [rows]
    rw [hrows, List.splitOn_append_cons_self_of_not_mem (h text List.mem_cons_self),
      ih fun other hother => h other (List.mem_cons_of_mem _ hother)]
    rfl

/-! ## §2 Widths -/

theorem foldl_max_mem (widths : List Nat) (start : Nat) :
    widths.foldl max start = start ∨ widths.foldl max start ∈ widths := by
  induction widths generalizing start with
  | nil => exact .inl rfl
  | cons width widths ih =>
    rw [List.foldl_cons]
    rcases ih (max start width) with h | h
    · rw [h]
      rcases max_choice start width with hmax | hmax
      · exact .inl hmax
      · rw [hmax]
        exact .inr List.mem_cons_self
    · exact .inr (List.mem_cons_of_mem _ h)

theorem length_le_widest {texts : List String} {text : String} (h : text ∈ texts) :
    text.length ≤ widest texts :=
  Document.le_foldl_max_of_mem (List.mem_map_of_mem h) 0

/-- Some text is as wide as the widest. -/
theorem exists_length_eq_widest {texts : List String} (h : texts ≠ []) :
    ∃ text ∈ texts, text.length = widest texts := by
  rcases foldl_max_mem (texts.map String.length) 0 with hzero | hmem
  · obtain ⟨text, rest, rfl⟩ := List.exists_cons_of_ne_nil h
    have hle := length_le_widest (List.mem_cons_self (a := text) (l := rest))
    refine ⟨text, List.mem_cons_self, ?_⟩
    unfold widest at hle ⊢
    omega
  · obtain ⟨text, htext, heq⟩ := List.mem_map.mp hmem
    exact ⟨text, htext, heq⟩

theorem length_padStart (width : Nat) (text : String) :
    (padStart width text).length = max width text.length := by
  rw [padStart, String.length_append, String.length_ofList, List.length_replicate]
  omega

theorem length_toString_le_iff {n width : Nat} (h : 0 < width) :
    (toString n).length ≤ width ↔ n < 10 ^ width := by
  rw [Nat.toString_eq_ofList_toDigits, String.length_ofList,
    Nat.length_toDigits_le_iff (by decide) h]

/-! ## §3 Columns -/

/-- The separator of the row begins in this column, counted in characters from zero: before it stand
the front, the text in full, and blanks; behind it the result. -/
def SeparatesAt (column : Nat) (front text result row : String) : Prop :=
  ∃ blanks, row = front ++ text ++ String.ofList (List.replicate blanks ' ') ++ separator ++ result
    ∧ front.length + text.length + blanks = column

theorem separatesAt_row {width : Nat} {text : String} (h : text.length ≤ width) (result : String) :
    SeparatesAt width "" text result (row width text result) := by
  refine ⟨width - text.length, ?_, ?_⟩
  · rw [row, padEnd, String.empty_append]
  · rw [String.length_empty]
    omega

/-- What is put in front of a row moves its separator by its own length. -/
theorem SeparatesAt.behind {column : Nat} {front text result row : String}
    (h : SeparatesAt column front text result row) (head : String) :
    SeparatesAt (head.length + column) (head ++ front) text result (head ++ row) := by
  obtain ⟨blanks, rfl, hcolumn⟩ := h
  refine ⟨blanks, by simp only [String.append_assoc], ?_⟩
  rw [String.length_append]
  omega

/-- What the listing puts in front of a line: its number, and two blanks. -/
def numberFront (i : Nat) : String :=
  padStart numberWidth (toString (i + 1)) ++ "  "

theorem numbered_eq (i : Nat) (row : String) : numbered i row = numberFront i ++ row := rfl

theorem length_numberFront (i : Nat) :
    (numberFront i).length = max 3 (toString (i + 1)).length + 2 := by
  rw [numberFront, String.length_append, length_padStart]
  rfl

theorem newline_not_mem_numberFront (i : Nat) : '\n' ∉ (numberFront i).toList := by
  have hnumber : '\n' ∉ Nat.toDigits 10 (i + 1) := fun hmem =>
    absurd (Nat.isDigit_of_mem_toDigits (by decide) (by decide) hmem) (by decide)
  simp [numberFront, padStart, hnumber]

/-- Numbers of up to three digits leave the separators in one column; a fourth digit does not. -/
theorem columns_eq_iff {count width : Nat} :
    (∃ column, ∀ i < count, max 3 (toString (i + 1)).length + 2 + width = column)
      ↔ count ≤ 999 := by
  have hshort (i : Nat) : (toString (i + 1)).length ≤ 3 ↔ i + 1 < 1000 :=
    length_toString_le_iff (by decide)
  constructor
  · rintro ⟨column, hcolumn⟩
    by_contra hcount
    have hfirst := hcolumn 0 (by omega)
    have hlater := hcolumn 999 (by omega)
    have hone := (hshort 0).mpr (by decide)
    have hthousand := mt (hshort 999).mp (by decide)
    omega
  · refine fun hcount => ⟨5 + width, fun i hi => ?_⟩
    have hi := (hshort i).mpr (by omega)
    omega

/-! ## §4 Sheets -/

section

variable [Engine]

/-- The output has one row for each line of the document, in their order. The row at each place has
this front, and its separator begins in this column. -/
def PrintsAligned (doc : Document) (output : String) (front : Nat → String)
    (column : Nat → Nat) : Prop :=
  ∃ rows, Prints output rows ∧ rows.length = doc.lines.length
    ∧ ∀ i line, doc.lines[i]? = some line → ∃ result row, doc.results[i]? = some result
      ∧ rows[i]? = some row ∧ SeparatesAt (column i) (front i) line.text result.text row

/-- The width of the column of lines. -/
def lineWidth (doc : Document) : Nat :=
  widest (doc.lines.map (·.text))

theorem length_le_lineWidth {doc : Document} {line : Line} (h : line ∈ doc.lines) :
    line.text.length ≤ lineWidth doc :=
  length_le_widest (List.mem_map_of_mem h)

/-- It is the width of the longest line. -/
theorem isGreatest_lineWidth {doc : Document} (h : doc.lines ≠ []) :
    IsGreatest {n | ∃ line ∈ doc.lines, line.text.length = n} (lineWidth doc) := by
  constructor
  · have htexts : doc.lines.map (·.text) ≠ [] := by simpa using h
    obtain ⟨text, htext, hlength⟩ := exists_length_eq_widest htexts
    obtain ⟨line, hline, rfl⟩ := List.mem_map.mp htext
    exact ⟨line, hline, hlength⟩
  · rintro n ⟨line, hline, rfl⟩
    exact length_le_lineWidth hline

section

variable {doc : Document} (hresults : doc.results = recalculate doc.evaluator doc.lines)

include hresults

theorem length_pairs : (pairs doc).length = doc.lines.length := by
  simp [pairs, Document.resultTexts, hresults, recalculate_length]

theorem pairs_getElem? {i : Nat} {line : Line} (hline : doc.lines[i]? = some line) :
    ∃ result, doc.results[i]? = some result
      ∧ (pairs doc)[i]? = some (row (lineWidth doc) line.text result.text) := by
  have hresult := recalculate_getElem? doc.evaluator hline
  rw [← hresults] at hresult
  refine ⟨_, hresult, ?_⟩
  simp [pairs, lineWidth, Document.resultTexts, List.getElem?_zipWith, hline, hresult]

variable (hplain : ∀ line ∈ doc.lines, '\n' ∉ line.text.toList)

include hplain

theorem newline_not_mem_pairs {pair : String} (h : pair ∈ pairs doc) : '\n' ∉ pair.toList := by
  obtain ⟨i, hi, rfl⟩ := List.mem_iff_getElem.mp h
  have hi' : i < doc.lines.length := length_pairs hresults ▸ hi
  obtain ⟨result, hresult, hpair⟩ := pairs_getElem? hresults (List.getElem?_eq_getElem hi')
  rw [Option.some.inj ((List.getElem?_eq_getElem hi).symm.trans hpair)]
  rw [hresults] at hresult
  exact CommandLine.newline_not_mem_row (hplain _ (List.getElem_mem hi'))
    (CommandLine.newline_not_mem_text
      (bindsWell_of_mem_resultsFrom _ (List.mem_of_getElem? hresult))) _

theorem sideBySide_aligned : PrintsAligned doc (sideBySide doc) (fun _ => "")
    fun _ => lineWidth doc := by
  refine ⟨pairs doc, prints_rows fun pair => newline_not_mem_pairs hresults hplain,
    length_pairs hresults, fun i line hline => ?_⟩
  obtain ⟨result, hresult, hpair⟩ := pairs_getElem? hresults hline
  have hwidth := length_le_lineWidth (List.mem_of_getElem? hline)
  exact ⟨result, _, hresult, hpair, separatesAt_row hwidth _⟩

/-- The rows of the listing are those of the sheet, each behind its number. -/
theorem listing_prints : Prints (listing doc) ((pairs doc).mapIdx numbered) := by
  refine prints_rows fun row hrow => ?_
  obtain ⟨i, hi, rfl⟩ := List.mem_mapIdx.mp hrow
  rw [numbered_eq, String.toList_append, List.mem_append, not_or]
  exact ⟨newline_not_mem_numberFront i,
    newline_not_mem_pairs hresults hplain (List.getElem_mem hi)⟩

theorem listing_aligned : PrintsAligned doc (listing doc) numberFront
    fun i => (numberFront i).length + lineWidth doc := by
  refine ⟨_, listing_prints hresults hplain, ?_, fun i line hline => ?_⟩
  · rw [List.length_mapIdx, length_pairs hresults]
  · obtain ⟨result, hresult, hpair⟩ := pairs_getElem? hresults hline
    have hwidth := length_le_lineWidth (List.mem_of_getElem? hline)
    have hrow := (separatesAt_row hwidth result.text).behind (numberFront i)
    rw [String.append_empty] at hrow
    refine ⟨result, _, hresult, ?_, hrow⟩
    rw [List.getElem?_mapIdx, hpair, Option.map_some, numbered_eq]

end

/-- **Columns line up.** Both renderings have one row for each line, in order, with the full text of
the line, and in the rendering side by side all separators stand in the column behind the longest
line. In the listing each separator stands behind the number of its line too, which takes three
characters, or more if it has more digits; so all of them stand in one column exactly if there are
at most 999 lines. -/
theorem printsAligned_run (opening : Document.Opening) (edits : List Document.Edit)
    (hplain : ∀ line ∈ (opening.document.run edits).lines, '\n' ∉ line.text.toList) :
    let doc := opening.document.run edits
    ∃ width, IsGreatest {n | ∃ line ∈ doc.lines, line.text.length = n} width
      ∧ PrintsAligned doc (sideBySide doc) (fun _ => "") (fun _ => width)
      ∧ PrintsAligned doc (listing doc) numberFront
        (fun i => max 3 (toString (i + 1)).length + 2 + width)
      ∧ ((∃ column, ∀ i < doc.lines.length, max 3 (toString (i + 1)).length + 2 + width = column)
        ↔ doc.lines.length ≤ 999) := by
  intro doc
  have hdoc := Document.wellFormed_foldl (.opening opening) edits
  refine ⟨lineWidth doc, isGreatest_lineWidth hdoc.numbered.ne_nil,
    sideBySide_aligned hdoc.results_eq hplain, ?_, columns_eq_iff⟩
  simpa only [length_numberFront] using listing_aligned hdoc.results_eq hplain

end

/-- A blank line and one with letters of two bytes; the longest line has six characters. -/
theorem printsAligned_run_letters :
    let doc := (Document.Opening.ofTexts ["x = 2", ""]).document.run [.push "größer"]
    (∀ line ∈ doc.lines, '\n' ∉ line.text.toList)
      ∧ PrintsAligned doc (sideBySide doc) (fun _ => "") (fun _ => 6)
      ∧ sideBySide doc = "x = 2  │ x = 2\n       │ \ngrößer │ Invalid expression\n" := by
  intro doc
  have hlines : doc.lines = [⟨1, "x = 2"⟩, ⟨2, ""⟩, ⟨3, "größer"⟩] := by decide +kernel
  have hplain : ∀ line ∈ doc.lines, '\n' ∉ line.text.toList := by
    rw [hlines]
    decide
  obtain ⟨width, hwidth, hbeside, -⟩ := printsAligned_run _ _ hplain
  have hsix : IsGreatest {n | ∃ line ∈ doc.lines, line.text.length = n} 6 := by
    rw [hlines]
    refine ⟨⟨⟨3, "größer"⟩, by decide, by decide⟩, ?_⟩
    rintro n ⟨line, hline, rfl⟩
    revert line
    decide
  obtain rfl := hwidth.unique hsix
  exact ⟨hplain, hbeside, by decide +kernel⟩

/-- The second character of the separator tells where the separator begins. -/
theorem getElem?_of_separator {left result row : String} (h : row = left ++ separator ++ result) :
    row.toList[left.length + 1]? = some '│' := by
  have hseparator : separator.toList = [' ', '│', ' '] := by decide
  rw [h, String.toList_append, String.toList_append, hseparator, List.append_assoc,
    ← String.length_toList, List.getElem?_append_right (Nat.le_add_right ..),
    Nat.add_sub_cancel_left]
  rfl

/-- A document of empty lines. -/
def emptyLines (count : Nat) : Document := .ofTexts (List.replicate count "")

section

variable {count : Nat}

theorem emptyLines_lines (hcount : count ≠ 0) :
    (emptyLines count).lines = Line.numbered (List.replicate count "") := by
  have hlines : (emptyLines count).lines = Document.linesOf (List.replicate count "") := rfl
  rw [hlines, Document.linesOf, if_neg (by simpa using hcount)]

theorem emptyLines_results (count : Nat) : (emptyLines count).results
    = recalculate (emptyLines count).evaluator (emptyLines count).lines := rfl

theorem text_of_mem_emptyLines (hcount : count ≠ 0) {line : Line}
    (h : line ∈ (emptyLines count).lines) : line.text = "" := by
  have htext := List.mem_map_of_mem (f := (·.text)) h
  rw [emptyLines_lines hcount, numbered_texts] at htext
  exact List.eq_of_mem_replicate htext

/-- Nothing but the separator is printed for an empty line. -/
theorem emptyLines_pairs {i : Nat} (hi : i < count) :
    (pairs (emptyLines count))[i]? = some separator := by
  have hcount : count ≠ 0 := by omega
  have hline : (emptyLines count).lines[i]? = some ⟨i + 1, ""⟩ := by
    simp [emptyLines_lines hcount, Line.numbered, hi]
  obtain ⟨result, hresult, hpair⟩ := pairs_getElem? (emptyLines_results count) hline
  have hblank : result.text = "" := by
    have hstep := recalculate_getElem? (emptyLines count).evaluator hline
    obtain rfl := Option.some.inj (hresult.symm.trans hstep)
    rfl
  have hwidth : lineWidth (emptyLines count) = 0 := by
    obtain ⟨other, hother, hlength⟩ :=
      (isGreatest_lineWidth (List.ne_nil_of_mem (List.mem_of_getElem? hline))).1
    rw [← hlength, text_of_mem_emptyLines hcount hother, String.length_empty]
  rw [hpair, hblank, hwidth]
  rfl

end

/-- The number of the last of a thousand lines has a digit too many. -/
theorem listing_thousand :
    let doc := emptyLines 1000
    (∀ line ∈ doc.lines, '\n' ∉ line.text.toList)
      ∧ ∃ rows, Prints (listing doc) rows ∧ rows[0]? = some "  1   │ "
        ∧ rows[999]? = some "1000   │ "
        ∧ ¬ ∃ column, ∀ row ∈ rows, ∃ left result, row = left ++ separator ++ result
          ∧ left.length = column := by
  intro doc
  have hplain : ∀ line ∈ doc.lines, '\n' ∉ line.text.toList := by
    intro line hline
    rw [text_of_mem_emptyLines (by decide) hline]
    decide
  have hrow {i : Nat} (hi : i < 1000) :
      ((pairs doc).mapIdx numbered)[i]? = some (numbered i separator) := by
    rw [List.getElem?_mapIdx]
    exact congrArg (Option.map (numbered i)) (emptyLines_pairs hi)
  have hfirst : numbered 0 separator = "  1   │ " := by decide
  have hlast : numbered 999 separator = "1000   │ " := by decide
  have hfirstRow := hfirst ▸ hrow (i := 0) (by decide)
  have hlastRow := hlast ▸ hrow (i := 999) (by decide)
  refine ⟨hplain, _, listing_prints (emptyLines_results 1000) hplain, hfirstRow, hlastRow, ?_⟩
  rintro ⟨column, hcolumn⟩
  obtain ⟨left, result, hleft, rfl⟩ := hcolumn _ (List.mem_of_getElem? hfirstRow)
  obtain ⟨left', result', hleft', hsame⟩ := hcolumn _ (List.mem_of_getElem? hlastRow)
  have hchar := getElem?_of_separator hleft
  have hchar' := getElem?_of_separator hleft'
  rw [hsame] at hchar'
  have hapart : ∀ n < 7, "  1   │ ".toList[n + 1]? = some '│' →
      "1000   │ ".toList[n + 1]? ≠ some '│' := by
    decide
  obtain ⟨hlt, -⟩ := List.getElem?_eq_some_iff.mp hchar
  exact hapart left.length (Nat.lt_of_succ_lt_succ hlt) hchar hchar'

end SumSheet.Layout
