/-
SumSheet.Proofs.CommandRows — the rows that the values of `-c` make.

The values are joined with line feeds into one text, and the text falls
into lines again by the rule for the lines of a file. That rule has no
line behind the last line feed, so the two do not undo each other: an
empty value at the end leaves no row. Where the last value is not empty,
or is the only one, the rows are the values, in order and as they are.

`FallsInto` says what the lines of a text are, apart from the function
that finds them.

A row is not all that a run prints. What evaluations write is printed
while the sheet is evaluated, and so stands above the rows. While
functions are loaded nothing is written, for there is no line yet that
could be evaluated (`loadAll_written`).

  §1 Lines  — how a text falls into lines.
  §2 Rows   — a result makes one row.
  §3 Values — what joining values and reading lines makes of them.
  §4 Runs   — the document and the output of a run with values.
-/
import SumSheet.CommandLine
import SumSheet.Proofs.DisplayText
import SumSheet.Proofs.DocumentInvariant

namespace SumSheet

open Text

/-! ## §1 Lines -/

namespace Text

/-- A line ends at a line feed and leaves out a carriage return in front of it. What stands behind
the last line feed is a line too, unless it is empty. -/
inductive FallsInto : List Char → List (List Char) → Prop
  | nothing : FallsInto [] []
  | last {line : List Char} (hne : line ≠ []) (hline : '\n' ∉ line) : FallsInto line [line]
  | line {line rest : List Char} {lines : List (List Char)} (hline : '\n' ∉ line)
    (hrest : FallsInto rest lines) :
    FallsInto (line ++ '\n' :: rest) (dropReturn '\r' line :: lines)

/-- The line that has begun goes on to the next line feed. -/
theorem linesFrom_append {line : List Char} (h : '\n' ∉ line) (read rest : List Char) :
    linesFrom '\n' '\r' read (line ++ '\n' :: rest)
      = dropReturn '\r' (read.reverse ++ line) :: linesFrom '\n' '\r' [] rest := by
  induction line generalizing read with
  | nil => simp [linesFrom]
  | cons c line ih =>
    have hc : c ≠ '\n' := fun heq => h (heq ▸ List.mem_cons_self)
    have hline : '\n' ∉ line := fun hmem => h (List.mem_cons_of_mem _ hmem)
    simp [linesFrom, hc, ih hline]

/-- Without a line feed there is the last line at most. -/
theorem linesFrom_last {line : List Char} (h : '\n' ∉ line) (read : List Char) :
    linesFrom '\n' '\r' read line
      = if read.reverse ++ line = [] then [] else [read.reverse ++ line] := by
  induction line generalizing read with
  | nil => simp [linesFrom]
  | cons c line ih =>
    have hc : c ≠ '\n' := fun heq => h (heq ▸ List.mem_cons_self)
    have hline : '\n' ∉ line := fun hmem => h (List.mem_cons_of_mem _ hmem)
    simp [linesFrom, hc, ih hline]

theorem FallsInto.linesFrom_eq {text : List Char} {found : List (List Char)}
    (h : FallsInto text found) : linesFrom '\n' '\r' [] text = found := by
  induction h with
  | nothing => rfl
  | last hne hline =>
    rw [linesFrom_last hline, List.reverse_nil, List.nil_append, if_neg hne]
  | line hline _ ih =>
    rw [linesFrom_append hline, ih]
    rfl

theorem fallsInto_linesFrom {read : List Char} (h : '\n' ∉ read) (text : List Char) :
    FallsInto (read.reverse ++ text) (linesFrom '\n' '\r' read text) := by
  induction text generalizing read with
  | nil =>
    rw [linesFrom, List.append_nil]
    split
    · rename_i hempty
      rw [List.isEmpty_iff.mp hempty]
      exact .nothing
    · rename_i hsome
      refine .last ?_ (by rwa [List.mem_reverse])
      rw [Ne, List.reverse_eq_nil_iff]
      exact fun hnil => hsome (List.isEmpty_iff.mpr hnil)
  | cons c rest ih =>
    rw [linesFrom]
    split
    · rename_i hc
      obtain rfl := beq_iff_eq.mp hc
      have hnone : '\n' ∉ ([] : List Char) := List.not_mem_nil
      exact .line (by rwa [List.mem_reverse]) (ih hnone)
    · rename_i hc
      have hread : '\n' ∉ c :: read := by
        rw [List.mem_cons, not_or]
        exact ⟨fun heq => hc (beq_iff_eq.mpr heq.symm), h⟩
      have hrest := ih hread
      rwa [List.reverse_cons, List.append_assoc, List.singleton_append] at hrest

/-- The lines of a text are what it falls into. -/
theorem lines_eq_iff {text : String} {found : List String} :
    lines text = found ↔ FallsInto text.toList (found.map String.toList) := by
  have hfalls : FallsInto text.toList (linesFrom '\n' '\r' [] text.toList) :=
    fallsInto_linesFrom List.not_mem_nil text.toList
  constructor
  · rintro rfl
    rw [lines, List.map_map]
    simpa [Function.comp_def] using hfalls
  · intro h
    rw [lines, h.linesFrom_eq, List.map_map]
    simp [Function.comp_def]

theorem FallsInto.newline_not_mem {text : List Char} {found : List (List Char)}
    (h : FallsInto text found) : ∀ line ∈ found, '\n' ∉ line := by
  induction h with
  | nothing => exact List.forall_mem_nil _
  | last hne hline => exact List.forall_mem_singleton.mpr hline
  | line hline _ ih =>
    refine List.forall_mem_cons.mpr ⟨fun hmem => hline ?_, ih⟩
    unfold dropReturn at hmem
    split at hmem
    · exact List.mem_of_mem_dropLast hmem
    · exact hmem

/-- No line of a text has a line feed. -/
theorem newline_not_mem_of_mem_lines {text line : String} (h : line ∈ lines text) :
    '\n' ∉ line.toList :=
  (lines_eq_iff.mp rfl).newline_not_mem _ (List.mem_map_of_mem h)

/-- Texts without line feeds and carriage returns are joined with line feeds into a text of which
they are the lines, but for an empty one at the end. -/
theorem fallsInto_intercalate {values : List (List Char)} (hsome : values ≠ [])
    (hplain : ∀ v ∈ values, '\n' ∉ v ∧ '\r' ∉ v) :
    FallsInto (['\n'].intercalate values)
      (if values.getLast? = some [] then values.dropLast else values) := by
  induction values with
  | nil => exact absurd rfl hsome
  | cons v rest ih =>
    obtain ⟨⟨hfeed, hreturn⟩, hrest⟩ := List.forall_mem_cons.mp hplain
    cases rest with
    | nil =>
      rw [List.intercalate_singleton, List.getLast?_singleton]
      split
      · rename_i hempty
        rw [Option.some_inj.mp hempty]
        exact .nothing
      · rename_i hv
        exact .last (fun hnil => hv (congrArg some hnil)) hfeed
    | cons w rest =>
      have hline : dropReturn '\r' v = v := by
        rw [dropReturn, if_neg]
        exact fun hlast => hreturn (List.mem_of_getLast? (beq_iff_eq.mp hlast))
      have hfalls := FallsInto.line hfeed (ih (List.cons_ne_nil _ _) hrest)
      rw [hline] at hfalls
      rw [List.intercalate_cons_cons, List.append_assoc, List.singleton_append,
        List.getLast?_cons_cons, List.dropLast_cons_cons]
      split
      · rename_i hlast
        rwa [if_pos hlast] at hfalls
      · rename_i hlast
        rwa [if_neg hlast] at hfalls

end Text

namespace CommandLine

/-! ## §2 Rows -/

/-- The row of a result: the result alone, or behind its line and a separator. It is one row. -/
structure IsRow (beside : Bool) (row : String) (r : ResultLine) : Prop where
  single : '\n' ∉ row.toList
  shows : if beside then ∃ front, row = front ++ Layout.separator ++ r.text else row = r.text

theorem newline_not_mem_display (x : Float) : '\n' ∉ (Number.display x).toList := by
  cases hb : Number.Binary.ofFloat? x with
  | some b =>
    rw [Number.display_of_ofFloat? hb]
    intro hmem
    have hchar := (isRedisplayed_text (Number.Binary.isDouble_of_ofFloat? hb)).chars _ hmem
    cases hchar
  | none =>
    rw [Number.display, hb]
    simp only []
    split
    · decide
    · split <;> decide

theorem newline_not_mem_text {r : ResultLine} (h : r.BindsWell) : '\n' ∉ r.text.toList := by
  unfold ResultLine.text
  split
  · rename_i x name _ hname
    obtain ⟨⟨_, hpart⟩, _⟩ := h name hname
    simp only [String.toList_append, List.mem_append, not_or]
    refine ⟨⟨fun hmem => ?_, by decide⟩, newline_not_mem_display x⟩
    exact absurd (hpart _ hmem).1 (by decide)
  · exact newline_not_mem_display _
  · rename_i f _
    cases f <;> decide
  · decide

section

variable {α β γ : Type} {f : α → β → γ} {p : γ → β → Prop}

theorem forall₂_zipWith {xs : List α} {ys : List β} (hlength : xs.length = ys.length)
    (h : ∀ x ∈ xs, ∀ y ∈ ys, p (f x y) y) : List.Forall₂ p (List.zipWith f xs ys) ys := by
  induction ys generalizing xs with
  | nil => simp
  | cons y ys ih =>
    obtain ⟨x, xs, rfl⟩ := List.exists_cons_of_length_eq_add_one hlength
    refine .cons (h x List.mem_cons_self y List.mem_cons_self) (ih ?_ ?_)
    · simpa using hlength
    · exact fun a ha b hb => h a (List.mem_cons_of_mem _ ha) b (List.mem_cons_of_mem _ hb)

end

theorem newline_not_mem_padEnd {text : String} (h : '\n' ∉ text.toList) (width : Nat) :
    '\n' ∉ (Layout.padEnd width text).toList := by
  rw [Layout.padEnd, String.toList_append, String.toList_ofList, List.mem_append, not_or]
  refine ⟨h, fun hmem => ?_⟩
  cases List.eq_of_mem_replicate hmem

theorem newline_not_mem_row {text result : String} (htext : '\n' ∉ text.toList)
    (hresult : '\n' ∉ result.toList) (width : Nat) :
    '\n' ∉ (Layout.row width text result).toList := by
  rw [Layout.row, String.toList_append, String.toList_append, List.mem_append, List.mem_append,
    not_or, not_or]
  exact ⟨⟨newline_not_mem_padEnd htext width, by decide⟩, hresult⟩

/-- The results of the lines of a sheet, of which there is always one. -/
def sheetResults (evaluator : Evaluator) (sheet : String) : List ResultLine :=
  recalculate evaluator (Document.linesOf (lines sheet))

theorem newline_not_mem_linesOf {sheet : String} {line : Line}
    (h : line ∈ Document.linesOf (lines sheet)) : '\n' ∉ line.text.toList := by
  have htext : line.text ∈ (Document.linesOf (lines sheet)).map (·.text) := List.mem_map_of_mem h
  rw [Document.linesOf, numbered_texts] at htext
  split at htext
  · rw [List.mem_singleton.mp htext]
    decide
  · exact newline_not_mem_of_mem_lines htext

section

variable [Engine] (beside : Bool) (doc : Document) (sheet : String)

/-- The document that a sheet is evaluated in. -/
theorem evaluate_document :
    (evaluate beside doc sheet).document = doc.replaceAll (lines sheet) := rfl

theorem evaluate_output_eq : (evaluate beside doc sheet).output
    = Layout.rows (doc.replaceAll (lines sheet)).written
      ++ if beside then Layout.rows (Layout.pairs (doc.replaceAll (lines sheet)))
        else Layout.rows (doc.replaceAll (lines sheet)).resultTexts := rfl

theorem replaceAll_lines (texts : List String) :
    (doc.replaceAll texts).lines = Document.linesOf texts := rfl

theorem replaceAll_results :
    (doc.replaceAll (lines sheet)).results = sheetResults doc.evaluator sheet := rfl

/-- What the evaluations of a sheet write. -/
def sheetWrites (program : Engine.Program) (sheet : String) : List String :=
  passWrites (Engine.evaluate program) (Engine.writes program) (Document.linesOf (lines sheet))

theorem replaceAll_written : (doc.replaceAll (lines sheet)).written
    = doc.written ++ sheetWrites doc.program sheet := rfl

/-- A sheet is printed row by row, one for each of its lines, behind what has been written. -/
theorem evaluate_output : ∃ rows, (evaluate beside doc sheet).output
      = Layout.rows (doc.written ++ sheetWrites doc.program sheet) ++ Layout.rows rows
    ∧ List.Forall₂ (IsRow beside) rows (sheetResults doc.evaluator sheet) := by
  have hwell : ∀ r ∈ sheetResults doc.evaluator sheet, '\n' ∉ r.text.toList :=
    fun r hr => newline_not_mem_text (bindsWell_of_mem_resultsFrom _ hr)
  rw [← replaceAll_results] at hwell ⊢
  rw [evaluate_output_eq, replaceAll_written]
  cases beside with
  | false =>
    refine ⟨(doc.replaceAll (lines sheet)).resultTexts, rfl, ?_⟩
    rw [Document.resultTexts, List.forall₂_map_left_iff, List.forall₂_same]
    exact fun r hr => ⟨hwell r hr, rfl⟩
  | true =>
    refine ⟨Layout.pairs (doc.replaceAll (lines sheet)), rfl, ?_⟩
    rw [Layout.pairs, Document.resultTexts, List.zipWith_map_right, replaceAll_lines]
    refine forall₂_zipWith ?_ fun text htext r hr => ⟨?_, _, rfl⟩
    · rw [List.length_map, replaceAll_results, sheetResults, recalculate_length]
    · obtain ⟨line, hline, rfl⟩ := List.mem_map.mp htext
      exact newline_not_mem_row (newline_not_mem_linesOf hline) (hwell r hr) _

/-- The code is one exactly if a line fails. -/
theorem evaluate_code : (evaluate beside doc sheet).code
    = if ∃ r ∈ sheetResults doc.evaluator sheet, r.isFailure = true then 1 else 0 := by
  have hcode : (evaluate beside doc sheet).code
      = if (doc.replaceAll (lines sheet)).hasFailures then 1 else 0 := rfl
  rw [hcode, Document.hasFailures, replaceAll_results]
  simp only [List.any_eq_true]

end

/-! ## §3 Values -/

/-- The rows that values make: one for each, but for an empty one behind others at the end. -/
def rowsOf (values : List String) : List String :=
  if values.getLast? = some "" ∧ values ≠ [""] then values.dropLast else values

theorem rowsOf_eq_iff {values : List String} :
    rowsOf values = values ↔ values.getLast? ≠ some "" ∨ values = [""] := by
  unfold rowsOf
  split
  · rename_i h
    have hne : values ≠ [] := by
      rintro rfl
      cases h.1
    refine iff_of_false (fun heq => ?_) ?_
    · have hlength := congrArg List.length heq
      rw [List.length_dropLast] at hlength
      have hpos := List.length_pos_iff.mpr hne
      omega
    · rintro (hlast | honly)
      · exact hlast h.1
      · exact h.2 honly
  · rename_i h
    refine iff_of_true rfl ?_
    rwa [not_and_or, not_not] at h

theorem lines_intercalate {values : List String} (hsome : values ≠ [])
    (hplain : ∀ v ∈ values, '\n' ∉ v.toList ∧ '\r' ∉ v.toList) :
    lines ("\n".intercalate values)
      = if values.getLast? = some "" then values.dropLast else values := by
  have hsome' : values.map String.toList ≠ [] := by simpa using hsome
  have hfalls := fallsInto_intercalate hsome' (by simpa using hplain)
  have hlast : (values.map String.toList).getLast? = some [] ↔ values.getLast? = some "" := by
    rw [List.getLast?_map, Option.map_eq_some_iff]
    simp
  rw [lines_eq_iff, String.toList_intercalate]
  split
  · rename_i h
    rw [if_pos (hlast.mpr h), ← List.map_dropLast] at hfalls
    exact hfalls
  · rename_i h
    rwa [if_neg (fun h' => h (hlast.mp h'))] at hfalls

/-- The lines of the sheet that values make. -/
theorem linesOf_intercalate {values : List String} (hsome : values ≠ [])
    (hplain : ∀ v ∈ values, '\n' ∉ v.toList ∧ '\r' ∉ v.toList) :
    Document.linesOf (lines ("\n".intercalate values)) = Line.numbered (rowsOf values) := by
  rw [lines_intercalate hsome hplain, Document.linesOf, rowsOf]
  by_cases honly : values = [""]
  · rw [honly]
    rfl
  · by_cases hlast : values.getLast? = some ""
    · have hnone : values.dropLast.isEmpty = false := by
        rw [List.isEmpty_eq_false_iff]
        intro hnil
        obtain ⟨front, rfl⟩ := List.getLast?_eq_some_iff.mp hlast
        rw [List.dropLast_concat] at hnil
        subst hnil
        exact honly rfl
      have hboth : values.getLast? = some "" ∧ values ≠ [""] := ⟨hlast, honly⟩
      rw [if_pos hlast, if_pos hboth, hnone]
      rfl
    · have hnone : values.isEmpty = false := List.isEmpty_eq_false_iff.mpr hsome
      have hboth : ¬ (values.getLast? = some "" ∧ values ≠ [""]) := fun h => hlast h.1
      rw [if_neg hlast, if_neg hboth, hnone]
      rfl

theorem parseOnto_value (options : Options) (value : String) (rest : List String) :
    parseOnto options ("-c" :: value :: rest)
      = parseOnto { options with commands := options.commands ++ [value] } rest := rfl

/-- The values are kept in the order of the arguments. -/
theorem parseOnto_values (options : Options) (values rest : List String) :
    parseOnto options ((values.flatMap fun v => ["-c", v]) ++ rest)
      = parseOnto { options with commands := options.commands ++ values } rest := by
  induction values generalizing options with
  | nil => simp
  | cons v values ih =>
    rw [List.flatMap_cons, List.append_assoc, List.cons_append, List.singleton_append,
      parseOnto_value, ih]
    simp

/-! ## §4 Runs -/

/-- The files with functions that a run loads, in order: the one that is always loaded, if it exists
and is not turned off, those of the configuration, and those among the arguments. -/
def functionPaths (env : Environment) (options : Options) : List String :=
  let always := Path.join env.configFolder "default.rhai"
  (if options.noDefaultFunctions = false ∧ env.files.isFile always = true then [always] else [])
    ++ (configOf env options).1.functions ++ options.functions

theorem functionPaths_eq (env : Environment) (options : Options) :
    functionPaths env options
      = (defaultFunctions env options).1 ++ (configOf env options).1.functions
        ++ options.functions := by
  unfold functionPaths defaultFunctions
  cases options.noDefaultFunctions with
  | true => rfl
  | false =>
    cases hfile : env.files.isFile (Path.join env.configFolder "default.rhai") <;> simp [hfile]

/-- The results are printed beside the lines. -/
def isBeside (env : Environment) (options : Options) : Bool :=
  options.sideBySide || (configOf env options).1.sideBySide

/-- Values go before a file and before the input. -/
theorem sourceOf_values {env : Environment} {options : Options}
    (hmode : options.interactive = false) (hsome : options.commands ≠ []) :
    sourceOf env options = .ok (.text ("\n".intercalate options.commands)) := by
  obtain ⟨v, rest, hvalues⟩ := List.exists_cons_of_ne_nil hsome
  rw [sourceOf, hmode, hvalues]
  rfl

/-- A blank line asks for nothing, so a pass over it writes nothing. -/
theorem passWrites_blank (evaluator : Evaluator) (writes : List Char → Scope → List String)
    (id : Nat) : passWrites evaluator writes [⟨id, ""⟩] = [] := rfl

section

variable [Engine] {env : Environment} {options : Options} {started : Start}

theorem start_eq_ok_iff : start env options = .ok started
    ↔ loadAll env.files .new (functionPaths env options) = .ok started.document
      ∧ sourceOf env options = .ok started.source ∧ started.config = (configOf env options).1
      ∧ started.said
        = (configOf env options).2.map .warning ++ (defaultFunctions env options).2 := by
  rw [functionPaths_eq]
  unfold start
  simp only []
  constructor
  · intro h
    split at h
    · cases h
    · rename_i hload
      split at h
      · cases h
      · rename_i hsource
        cases h
        exact ⟨hload, hsource, rfl, rfl⟩
  · rintro ⟨hload, hsource, hconfig, hsaid⟩
    obtain ⟨config, document, source, said⟩ := started
    simp only [hload, hsource]
    congr
    · exact hconfig.symm
    · exact hsaid.symm

theorem run_of_start {args : List String} (hparse : parse args = .ok options)
    (hstart : start env options = .ok started) :
    (run env args).output = (started.work env options).output
      ∧ (run env args).code = (started.work env options).code := by
  rw [run, hparse]
  simp only [perform, hstart, and_self]

/-- A run that evaluates a sheet. -/
theorem work_of_text {sheet : String} (hstart : start env options = .ok started)
    (hsource : started.source = .text sheet) :
    started.work env options = evaluate (isBeside env options) started.document sheet := by
  rw [Start.work, hsource, isBeside, (start_eq_ok_iff.mp hstart).2.2.1]

end

section

variable [Engine]

/-- While functions are loaded, the only line is empty and nothing is written. -/
theorem loadAll_written {files : FileTree} {paths : List String} {doc doc' : Document}
    (hlines : doc.lines = [⟨1, ""⟩]) (h : loadAll files doc paths = .ok doc') :
    doc'.written = doc.written := by
  induction paths generalizing doc with
  | nil =>
    cases h
    rfl
  | cons path rest ih =>
    rw [loadAll] at h
    split at h
    · rename_i found next hload
      obtain ⟨_, text, _, ⟨_, rfl⟩ | ⟨_, program, _, rfl⟩⟩ := Document.loadFunctions_ok hload
      · exact ih hlines h
      · rw [ih (show ((doc.withFile found).withScript _ program).lines = _ from hlines) h]
        show doc.written ++ passWrites _ _ doc.lines = doc.written
        rw [hlines, passWrites_blank, List.append_nil]
    · cases h

/-- The values of `-c` are the rows of the sheet, in order and as they are, whatever else is among
the arguments; only an empty value at the end that has others before it makes no row. Nothing but
functions that cannot be loaded keeps the sheet from being evaluated. What its evaluations write
stands above the rows, and there is nothing else on the output. -/
theorem run_values (env : Environment) (args : List String) (options : Options)
    (loaded : Document) (hparse : parse args = .ok options) (hmode : options.interactive = false)
    (hsome : options.commands ≠ [])
    (hplain : ∀ v ∈ options.commands, '\n' ∉ v.toList ∧ '\r' ∉ v.toList)
    (hload : loadAll env.files .new (functionPaths env options) = .ok loaded) :
    (∃ started, start env options = .ok started ∧
        let work := started.work env options
        work.document.lines = Line.numbered (rowsOf options.commands)
          ∧ ∃ rows, (run env args).output
              = Layout.rows (passWrites loaded.evaluator (Engine.writes loaded.program)
                work.document.lines) ++ Layout.rows rows
            ∧ rows.length = (rowsOf options.commands).length
            ∧ List.Forall₂ (IsRow (isBeside env options)) rows work.document.results)
      ∧ (rowsOf options.commands = options.commands
        ↔ options.commands.getLast? ≠ some "" ∨ options.commands = [""]) := by
  refine ⟨?_, rowsOf_eq_iff⟩
  obtain ⟨started, hstart, hsource⟩ : ∃ started, start env options = .ok started
      ∧ started.source = .text ("\n".intercalate options.commands) :=
    ⟨⟨_, loaded, .text _, _⟩,
      start_eq_ok_iff.mpr ⟨hload, sourceOf_values hmode hsome, rfl, rfl⟩, rfl⟩
  have hwork := work_of_text hstart hsource
  obtain rfl : started.document = loaded :=
    Except.ok.inj ((start_eq_ok_iff.mp hstart).1.symm.trans hload)
  have hwritten : started.document.written = [] := loadAll_written rfl hload
  have hlines := linesOf_intercalate hsome hplain
  obtain ⟨rows, houtput, hrows⟩ := evaluate_output (isBeside env options) started.document
    ("\n".intercalate options.commands)
  refine ⟨started, hstart, ?_⟩
  rw [hwork, (run_of_start hparse hstart).1, hwork]
  refine ⟨?_, rows, ?_, ?_, ?_⟩
  · rw [evaluate_document, replaceAll_lines, hlines]
  · rw [houtput, hwritten, List.nil_append]
    rfl
  · rw [hrows.length_eq, sheetResults, recalculate_length, hlines, Line.numbered,
      List.length_mapIdx]
  · rw [evaluate_document, replaceAll_results]
    exact hrows

end

/-- A folder without any files, and nothing on the input. -/
def bare : Environment where
  files := .empty ["d"]
  configFolder := "/d"
  input := .empty
  terminal := false

/-- The start of a run in the bare folder with the sheet of some values. -/
def bareStart (values : List String) : Start where
  config := .default
  document := .new
  source := .text ("\n".intercalate values)
  said := [.detail Journal.defaultFunctions "no default functions file at /d/default.rhai"]

section

variable (env : Environment) (values : List String)

/-- Values have nothing to do with the configuration and the functions. -/
theorem configOf_values : configOf env { commands := values } = configOf env {} := rfl

theorem defaultFunctions_values :
    defaultFunctions env { commands := values } = defaultFunctions env {} := rfl

theorem functionPaths_values :
    functionPaths env { commands := values } = functionPaths env {} := rfl

end

theorem loadAll_bare (values : List String) :
    loadAll bare.files .new (functionPaths bare { commands := values }) = .ok .new := by
  have hpaths : functionPaths bare {} = [] := by decide +kernel
  rw [functionPaths_values, hpaths]
  rfl

theorem start_bare {values : List String} (h : values ≠ []) :
    start bare { commands := values } = .ok (bareStart values) := by
  have hconfig : Config.default = (configOf bare {}).1 := by decide +kernel
  have hsaid : (bareStart []).said
      = (configOf bare {}).2.map .warning ++ (defaultFunctions bare {}).2 := by decide +kernel
  rw [start_eq_ok_iff, configOf_values, defaultFunctions_values]
  exact ⟨loadAll_bare values, sourceOf_values rfl h, hconfig, hsaid⟩

/-- Empty and blank values in front and between, and a value that is used behind them. -/
theorem run_values_blank :
    let values := ["", "x = 2", " ", "", "x * 3"]
    parse (values.flatMap fun v => ["-c", v]) = .ok { commands := values }
      ∧ (run bare (values.flatMap fun v => ["-c", v])).output = "\nx = 2\n\n\n6\n"
      ∧ ((bareStart values).work bare { commands := values }).document.lines
        = Line.numbered values := by
  intro values
  have hparse : parse (values.flatMap fun v => ["-c", v]) = .ok { commands := values } := by
    rw [parse, ← List.append_nil (values.flatMap _), parseOnto_values]
    rfl
  obtain ⟨⟨started, hstart, hlines, _⟩, hall⟩ := run_values bare _ _ .new hparse rfl
    (List.cons_ne_nil _ _) (by decide) (loadAll_bare values)
  obtain rfl := Except.ok.inj (hstart.symm.trans (start_bare (List.cons_ne_nil _ _)))
  refine ⟨hparse, by decide +kernel, ?_⟩
  rw [hlines, hall.mpr (.inl (by decide))]

/-- Two values, the second of which is empty, make one row. -/
theorem run_values_lastEmpty :
    parse ["-c", "1", "-c", ""] = .ok { commands := ["1", ""] }
      ∧ start bare { commands := ["1", ""] } = .ok (bareStart ["1", ""])
      ∧ ((bareStart ["1", ""]).work bare { commands := ["1", ""] }).document.lines = [⟨1, "1"⟩]
      ∧ (run bare ["-c", "1", "-c", ""]).output = "1\n" :=
  ⟨rfl, start_bare (List.cons_ne_nil _ _), by decide +kernel, by decide +kernel⟩

end CommandLine

end SumSheet
