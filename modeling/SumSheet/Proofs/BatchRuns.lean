/-
SumSheet.Proofs.BatchRuns — what a run without a session prints, and with
which code it ends.

First all functions are loaded. `Loads` says what that takes, apart from
the function that does it: every path leads to a file, the distinct files
among them can be read, and the texts up to any of them are a script. What
is loaded follows from the paths alone, each file once and at its first
place. Then the sheet is found (`SheetText`). If both succeed, each line of
the sheet makes one row, and the code says whether a line fails; if one of
them does not, nothing is printed.

  §1 Lists   — what stands at the end of a list.
  §2 Loading — one more file, and from it all files.
  §3 Sheets  — where the text of the sheet comes from.
  §4 Runs    — output and code of a run.
-/
import SumSheet.Proofs.CommandRows
import SumSheet.Proofs.MergedScript

namespace SumSheet

open Script Text Document

namespace CommandLine

/-! ## §1 Lists -/

theorem forall₂_concat_left_iff {α β : Type} {R : α → β → Prop} {xs : List α} {x : α}
    {zs : List β} : List.Forall₂ R (xs ++ [x]) zs
      ↔ ∃ ys y, zs = ys ++ [y] ∧ List.Forall₂ R xs ys ∧ R x y := by
  rw [← List.forall₂_reverse_iff, List.reverse_concat, List.forall₂_cons_left_iff]
  constructor
  · rintro ⟨y, ys, hy, hys, heq⟩
    refine ⟨ys.reverse, y, ?_, ?_, hy⟩
    · rw [← List.reverse_reverse zs, heq, List.reverse_cons]
    · rwa [← List.forall₂_reverse_iff, List.reverse_reverse]
  · rintro ⟨ys, y, rfl, hys, hy⟩
    exact ⟨y, ys.reverse, hy, List.forall₂_reverse_iff.mpr hys, List.reverse_concat ..⟩

theorem exists_of_mem_forall₂ {α β : Type} {R : α → β → Prop} {xs : List α} {ys : List β} {x : α}
    (h : List.Forall₂ R xs ys) (hx : x ∈ xs) : ∃ y, R x y := by
  induction h with
  | nil => cases hx
  | cons hy _ ih =>
    rcases List.mem_cons.mp hx with rfl | hx
    · exact ⟨_, hy⟩
    · exact ih hx

/-- What comes once more adds nothing. -/
theorem eraseDups_concat (xs : List String) (x : String) :
    (xs ++ [x]).eraseDups = if x ∈ xs then xs.eraseDups else xs.eraseDups ++ [x] := by
  rw [List.eraseDups_append]
  split
  · rename_i h
    simp [List.removeAll, h]
  · rename_i h
    simp [List.removeAll, h, List.eraseDups_cons]

/-! ## §2 Loading -/

section

variable [Engine]

/-- The files at these paths can be loaded in this order: they stand at these places, hold these
texts and have the functions of this program. -/
structure Loads (files : FileTree) (paths places texts : List String)
    (program : Engine.Program) : Prop where
  /-- Each path leads to a place, and each place counts once. -/
  places_eq : ∃ all, List.Forall₂ (fun path place => files.canonical path = .ok place) paths all
    ∧ places = all.eraseDups
  /-- The file there can be read. -/
  holds : List.Forall₂ (Holds files) places texts
  /-- The texts up to each of the files are a script. -/
  compiles : ∀ front, front <+: texts → ∃ p, compiled (scriptOf front) = .ok p
  program_eq : compiled (scriptOf texts) = .ok program

theorem loadAll_concat (files : FileTree) (doc : Document) (paths : List String) (path : String) :
    loadAll files doc (paths ++ [path])
      = (loadAll files doc paths).bind fun doc => loadAll files doc [path] := by
  induction paths generalizing doc with
  | nil => rfl
  | cons first rest ih =>
    rw [List.cons_append, loadAll, loadAll]
    split
    · exact ih _
    · rfl

theorem loadAll_singleton_eq_ok_iff {files : FileTree} {doc doc' : Document} {path : String} :
    loadAll files doc [path] = .ok doc'
      ↔ ∃ found, doc.loadFunctions files path = ⟨.ok found, doc'⟩ := by
  rw [loadAll]
  constructor
  · intro h
    split at h
    · rename_i found next hload
      cases h
      exact ⟨found, hload⟩
    · cases h
  · rintro ⟨found, hload⟩
    simp only [hload, loadAll]

/-- Loading the files one by one succeeds up to the last, and then with the last. -/
theorem loadAll_concat_eq_ok_iff {files : FileTree} {paths : List String} {path : String}
    {doc doc' : Document} : loadAll files doc (paths ++ [path]) = .ok doc'
      ↔ ∃ before found, loadAll files doc paths = .ok before
        ∧ before.loadFunctions files path = ⟨.ok found, doc'⟩ := by
  rw [loadAll_concat]
  constructor
  · intro h
    cases hbefore : loadAll files doc paths with
    | error e => rw [hbefore] at h; cases h
    | ok before =>
      rw [hbefore] at h
      obtain ⟨found, hload⟩ := loadAll_singleton_eq_ok_iff.mp h
      exact ⟨before, found, rfl, hload⟩
  · rintro ⟨before, found, hbefore, hload⟩
    rw [hbefore]
    exact loadAll_singleton_eq_ok_iff.mpr ⟨found, hload⟩

/-- A script that one more text joins. -/
theorem compiled_concat (texts : List String) (text : String) :
    compiled (scriptOf (texts ++ [text]))
      = Engine.compile (joinScripts ((scriptOf texts).toList ++ [text])) := by
  rw [scriptOf_of_ne_nil (by simp), joinScripts_scriptOf]
  rfl

/-- The document has loaded these files, with these texts. -/
structure HasLoaded (doc : Document) (places texts : List String)
    (program : Engine.Program) : Prop where
  files_eq : doc.functionFiles = places
  script_eq : doc.script = scriptOf texts
  program_eq : doc.program = program

section

variable {files : FileTree} {paths places texts : List String} {path place text : String}
  {program program' : Engine.Program}

theorem loads_nil (files : FileTree) : Loads files [] [] [] Engine.empty where
  places_eq := ⟨[], .nil, rfl⟩
  holds := .nil
  compiles front hfront := by
    rw [List.prefix_nil.mp hfront]
    exact ⟨Engine.empty, rfl⟩
  program_eq := rfl

/-- A path to a file that is there already changes nothing. -/
theorem Loads.again (h : Loads files paths places texts program)
    (hpath : files.canonical path = .ok place) (hold : place ∈ places) :
    Loads files (paths ++ [path]) places texts program := by
  obtain ⟨all, hall, rfl⟩ := h.places_eq
  refine { h with places_eq := ⟨all ++ [place], ?_, ?_⟩ }
  · exact forall₂_concat_left_iff.mpr ⟨all, place, rfl, hall, hpath⟩
  · rw [eraseDups_concat, if_pos (List.mem_eraseDups.mp hold)]

/-- Any other file comes last. -/
theorem Loads.next (h : Loads files paths places texts program)
    (hpath : files.canonical path = .ok place) (hnew : place ∉ places)
    (htext : Holds files place text)
    (hnext : compiled (scriptOf (texts ++ [text])) = .ok program') :
    Loads files (paths ++ [path]) (places ++ [place]) (texts ++ [text]) program' := by
  obtain ⟨all, hall, rfl⟩ := h.places_eq
  refine ⟨⟨all ++ [place], ?_, ?_⟩, ?_, fun front hfront => ?_, hnext⟩
  · exact forall₂_concat_left_iff.mpr ⟨all, place, rfl, hall, hpath⟩
  · rw [eraseDups_concat, if_neg (fun hmem => hnew (List.mem_eraseDups.mpr hmem))]
  · exact forall₂_concat_left_iff.mpr ⟨texts, text, rfl, h.holds, htext⟩
  · rcases List.prefix_concat_iff.mp hfront with rfl | hfront
    · exact ⟨program', hnext⟩
    · exact h.compiles front hfront

/-- The last path leads to a file that is there already, or to one that comes last. -/
theorem Loads.cases_concat (h : Loads files (paths ++ [path]) places texts program) :
    ∃ place, files.canonical path = .ok place
      ∧ ((place ∈ places ∧ Loads files paths places texts program)
        ∨ ∃ before front text p, places = before ++ [place] ∧ texts = front ++ [text]
          ∧ place ∉ before ∧ Holds files place text ∧ Loads files paths before front p) := by
  obtain ⟨all, hall, rfl⟩ := h.places_eq
  obtain ⟨before, place, rfl, hbefore, hpath⟩ := forall₂_concat_left_iff.mp hall
  refine ⟨place, hpath, ?_⟩
  have hholds := h.holds
  rw [eraseDups_concat] at hholds ⊢
  split at hholds
  · rename_i hold
    rw [if_pos hold]
    exact .inl ⟨List.mem_eraseDups.mpr hold, ⟨before, hbefore, rfl⟩, hholds, h.compiles,
      h.program_eq⟩
  · rename_i hnew
    rw [if_neg hnew]
    obtain ⟨front, text, rfl, hfront, htext⟩ := forall₂_concat_left_iff.mp hholds
    obtain ⟨p, hp⟩ := h.compiles front (List.prefix_append ..)
    refine .inr ⟨before.eraseDups, front, text, p, rfl, rfl, ?_, htext, ⟨before, hbefore, rfl⟩,
      hfront, fun front' hfront' => ?_, hp⟩
    · exact fun hmem => hnew (List.mem_eraseDups.mp hmem)
    · exact h.compiles front' (hfront'.trans (List.prefix_append ..))

/-- Loading one more file gives what one more path of `Loads` gives. -/
theorem Loads.of_loadFunctions {doc doc' : Document} (h : Loads files paths places texts program)
    (hdoc : HasLoaded doc places texts program)
    (hload : doc.loadFunctions files path = ⟨.ok place, doc'⟩) :
    ∃ places' texts' program', Loads files (paths ++ [path]) places' texts' program'
      ∧ HasLoaded doc' places' texts' program' := by
  obtain ⟨hpath, text, htext, ⟨hold, rfl⟩ | ⟨hnew, program', hnext, rfl⟩⟩ :=
    loadFunctions_ok hload
  · rw [hdoc.files_eq] at hold
    exact ⟨places, texts, program, h.again hpath hold, hdoc⟩
  · rw [hdoc.files_eq] at hnew
    rw [hdoc.script_eq] at hnext
    refine ⟨places ++ [place], texts ++ [text], program',
      h.next hpath hnew (readFunctions_eq_ok_iff.mp htext) ?_, ?_, ?_, rfl⟩
    · rw [compiled_concat, hnext]
    · exact congrArg (· ++ [place]) hdoc.files_eq
    · rw [scriptOf_of_ne_nil (by simp), ← joinScripts_scriptOf, ← hdoc.script_eq]
      rfl

/-- A file that can be read and whose text joins the script is loaded. -/
theorem loadFunctions_of_holds {doc : Document} (hpath : files.canonical path = .ok place)
    (htext : Holds files place text)
    (hcompiles : place ∉ doc.functionFiles → ∃ p,
      Engine.compile (joinScripts (doc.script.toList ++ [text])) = .ok p) :
    ∃ doc', doc.loadFunctions files path = ⟨.ok place, doc'⟩ := by
  have hread := readFunctions_eq_ok_iff.mpr htext
  rcases hload : doc.loadFunctions files path with ⟨cause | found, doc'⟩
  · exfalso
    rcases loadFunctions_eq_error_iff.mp (congrArg Answer.result hload) with
      _ | _ | _ | _ | _ | hlost | ⟨hfound, hfile⟩ | ⟨hfound, hfile, hnew, hscript⟩
    · cases hpath.symm.trans hlost
    · obtain rfl := Except.ok.inj (hpath.symm.trans hfound)
      cases hread.symm.trans (readFunctions_eq_error_iff.mpr ⟨_, rfl, hfile⟩)
    · obtain rfl := Except.ok.inj (hpath.symm.trans hfound)
      obtain rfl := Except.ok.inj (hread.symm.trans (readFunctions_eq_ok_iff.mpr hfile))
      obtain ⟨p, hp⟩ := hcompiles hnew
      rw [joinScripts_toList] at hp
      cases hp.symm.trans hscript
  · obtain rfl := Except.ok.inj (hpath.symm.trans (loadFunctions_ok hload).1)
    exact ⟨doc', rfl⟩

/-- What has been loaded could be loaded. -/
theorem loads_of_loadAll {doc : Document} (h : loadAll files .new paths = .ok doc) :
    ∃ places texts program, Loads files paths places texts program
      ∧ HasLoaded doc places texts program := by
  induction paths using List.reverseRecOn generalizing doc with
  | nil =>
    cases h
    exact ⟨[], [], Engine.empty, loads_nil files, rfl, rfl, rfl⟩
  | append_singleton paths path ih =>
    obtain ⟨before, found, hbefore, hload⟩ := loadAll_concat_eq_ok_iff.mp h
    obtain ⟨places, texts, program, hloads, hhas⟩ := ih hbefore
    exact hloads.of_loadFunctions hhas hload

/-- What can be loaded is determined by the paths. -/
theorem Loads.unique {places' texts' : List String} (h : Loads files paths places texts program)
    (h' : Loads files paths places' texts' program') :
    places = places' ∧ texts = texts' ∧ program = program' := by
  obtain ⟨all, hall, rfl⟩ := h.places_eq
  obtain ⟨all', hall', rfl⟩ := h'.places_eq
  have hplace : Relator.RightUnique fun path place => files.canonical path = .ok place := by
    intro path place place' hplace hplace'
    exact Except.ok.inj (hplace.symm.trans hplace')
  have htext : Relator.RightUnique (Holds files) := by
    intro place text text' htext htext'
    have hread := readFunctions_eq_ok_iff.mpr htext
    exact Except.ok.inj (hread.symm.trans (readFunctions_eq_ok_iff.mpr htext'))
  obtain rfl := hplace.forall₂ hall hall'
  obtain rfl := htext.forall₂ h.holds h'.holds
  exact ⟨rfl, rfl, Except.ok.inj (h.program_eq.symm.trans h'.program_eq)⟩

theorem Loads.hasLoaded {doc : Document} (h : Loads files paths places texts program)
    (hload : loadAll files .new paths = .ok doc) : HasLoaded doc places texts program := by
  obtain ⟨places', texts', program', hloads, hhas⟩ := loads_of_loadAll hload
  obtain ⟨rfl, rfl, rfl⟩ := h.unique hloads
  exact hhas

/-- What can be loaded is loaded. -/
theorem Loads.loadAll (h : Loads files paths places texts program) :
    ∃ doc, loadAll files .new paths = .ok doc := by
  induction paths using List.reverseRecOn generalizing places texts program with
  | nil => exact ⟨.new, rfl⟩
  | append_singleton paths path ih =>
    -- the files before the last are loaded, and the last one can be loaded behind them
    have hlast : ∃ before place, CommandLine.loadAll files .new paths = .ok before
        ∧ ∃ doc, before.loadFunctions files path = ⟨.ok place, doc⟩ := by
      obtain ⟨place, hpath, hcases⟩ := h.cases_concat
      rcases hcases with ⟨hold, hloads⟩ | ⟨places, front, text, p, rfl, rfl, hnew, htext, hloads⟩
      · obtain ⟨before, hbefore⟩ := ih hloads
        obtain ⟨text, htext⟩ := exists_of_mem_forall₂ hloads.holds hold
        rw [← (hloads.hasLoaded hbefore).files_eq] at hold
        exact ⟨before, place, hbefore,
          loadFunctions_of_holds hpath htext fun hnew => absurd hold hnew⟩
      · obtain ⟨before, hbefore⟩ := ih hloads
        refine ⟨before, place, hbefore,
          loadFunctions_of_holds hpath htext fun _ => ⟨program, ?_⟩⟩
        rw [(hloads.hasLoaded hbefore).script_eq, ← compiled_concat]
        exact h.program_eq
    obtain ⟨before, place, hbefore, doc, hload⟩ := hlast
    exact ⟨doc, loadAll_concat_eq_ok_iff.mpr ⟨before, place, hbefore, hload⟩⟩

end

end

/-! ## §3 Sheets -/

/-- The text of the sheet: the values of `-c`, one on each line; or what a file holds; or the input,
which a single `-` means too. -/
inductive SheetText (env : Environment) (options : Options) : String → Prop
  | values (hsome : options.commands ≠ []) :
    SheetText env options ("\n".intercalate options.commands)
  | file {path text : String} {content : ByteArray} (hnone : options.commands = [])
    (hfile : options.file = some path) (hpath : path ≠ "-")
    (hread : env.files.readBytes path = .ok content)
    (htext : String.fromUTF8? content = some text) : SheetText env options text
  | input {text : String} (hnone : options.commands = [])
    (hfile : options.file = none ∨ options.file = some "-")
    (htext : String.fromUTF8? env.input = some text) : SheetText env options text

section

variable {env : Environment} {options : Options}

theorem decode_eq_ok_iff {content : ByteArray} {text : String} :
    FileTree.decode content = .ok text ↔ String.fromUTF8? content = some text := by
  unfold FileTree.decode
  cases String.fromUTF8? content <;> simp

theorem inputSheet_eq_ok_iff {source : Source} : inputSheet env = .ok source
    ↔ ∃ text, source = .text text ∧ String.fromUTF8? env.input = some text := by
  simp only [← decode_eq_ok_iff]
  unfold inputSheet
  cases FileTree.decode env.input with
  | error cause => simp
  | ok text => simp [eq_comm]

theorem fileSheet_eq_ok_iff {source : Source} {path : String} (hpath : path ≠ "-") :
    fileSheet env path = .ok source ↔ ∃ text content, source = .text text
      ∧ env.files.readBytes path = .ok content ∧ String.fromUTF8? content = some text := by
  simp only [← decode_eq_ok_iff]
  unfold fileSheet FileTree.readText
  rw [if_neg (by simpa using hpath)]
  cases hread : env.files.readBytes path with
  | error cause => simp [bind, Except.bind]
  | ok content =>
    cases hdecode : FileTree.decode content with
    | error cause => simp [bind, Except.bind, hdecode]
    | ok text => simp [bind, Except.bind, hdecode, eq_comm]

section

variable {text : String}

theorem sheetText_of_values (hsome : options.commands ≠ []) :
    SheetText env options text ↔ text = "\n".intercalate options.commands := by
  constructor
  · intro h
    cases h with
    | values _ => rfl
    | file hnone => exact absurd hnone hsome
    | input hnone => exact absurd hnone hsome
  · rintro rfl
    exact .values hsome

theorem sheetText_of_file (hnone : options.commands = []) {path : String}
    (hfile : options.file = some path) (hpath : path ≠ "-") : SheetText env options text
      ↔ ∃ content, env.files.readBytes path = .ok content
        ∧ String.fromUTF8? content = some text := by
  constructor
  · intro h
    cases h with
    | values hsome => exact absurd hnone hsome
    | file _ hfile' _ hread htext =>
      cases hfile.symm.trans hfile'
      exact ⟨_, hread, htext⟩
    | input _ hfile' =>
      rw [hfile, Option.some_inj] at hfile'
      exact absurd (hfile'.resolve_left (Option.some_ne_none path)) hpath
  · rintro ⟨content, hread, htext⟩
    exact .file hnone hfile hpath hread htext

theorem sheetText_of_input (hnone : options.commands = [])
    (hfile : options.file = none ∨ options.file = some "-") :
    SheetText env options text ↔ String.fromUTF8? env.input = some text := by
  constructor
  · intro h
    cases h with
    | values hsome => exact absurd hnone hsome
    | file _ hfile' hpath =>
      rw [hfile', Option.some_inj] at hfile
      exact absurd (hfile.resolve_left (Option.some_ne_none _)) hpath
    | input _ _ htext => exact htext
  · exact .input hnone hfile

end

/-- Without a session, the source is the text of the sheet, if there is one. -/
theorem sourceOf_eq_ok_iff (hmode : options.interactive = false) (hinput : env.terminal = false)
    {source : Source} : sourceOf env options = .ok source
      ↔ ∃ text, source = .text text ∧ SheetText env options text := by
  by_cases hnone : options.commands = []
  · rw [sourceOf, hmode, hinput, hnone]
    simp only [Bool.false_eq_true, if_false]
    cases hfile : options.file with
    | none =>
      simp only [inputSheet_eq_ok_iff, sheetText_of_input hnone (.inl hfile)]
    | some path =>
      by_cases hpath : path = "-"
      · subst hpath
        simp only [show fileSheet env "-" = inputSheet env from rfl, inputSheet_eq_ok_iff,
          sheetText_of_input hnone (.inr hfile)]
      · simp only [fileSheet_eq_ok_iff hpath, sheetText_of_file hnone hfile hpath,
          exists_and_left]
  · rw [sourceOf_values hmode hnone]
    simp [sheetText_of_values hnone, eq_comm]

end

/-! ## §4 Runs -/

theorem sheetResults_length (evaluator : Evaluator) (sheet : String) :
    (sheetResults evaluator sheet).length = max 1 (lines sheet).length := by
  rw [sheetResults, recalculate_length, Document.linesOf, Line.numbered, List.length_mapIdx]
  cases hlines : lines sheet with
  | nil => rfl
  | cons first rest =>
    rw [List.isEmpty_cons, List.length_cons]
    simp

section

variable [Engine]

/-- A run for which something is missing prints nothing. -/
theorem run_of_not_start {env : Environment} {args : List String} {options : Options}
    (hparse : parse args = .ok options) (h : ∀ started, start env options ≠ .ok started) :
    (run env args).output = "" ∧ (run env args).code = 1 := by
  rw [run, hparse]
  simp only [perform]
  cases hstart : start env options with
  | ok started => exact absurd hstart (h started)
  | error e => exact ⟨rfl, rfl⟩

/-- **A run without a session.** The functions are those of `default.rhai`, of the configuration and
of the arguments, in this order and each file once. If they cannot be loaded, or there is no sheet,
nothing is printed and the code is one. Otherwise there is printed what the evaluations of the sheet
write, and then one row for each line of the sheet, which shows its result; and the code is one
exactly if a line fails. -/
theorem run_batch (env : Environment) (args : List String) (options : Options)
    (hparse : parse args = .ok options) (hmode : options.interactive = false)
    (hinput : env.terminal = false) :
    let exit := run env args
    let paths := functionPaths env options
    ((¬ ∃ places texts program, Loads env.files paths places texts program)
        ∨ (¬ ∃ sheet, SheetText env options sheet) → exit.output = "" ∧ exit.code = 1)
      ∧ ∀ places texts program sheet, Loads env.files paths places texts program →
        SheetText env options sheet →
        let results := sheetResults (Engine.evaluate program) sheet
        (∃ started, start env options = .ok started
            ∧ HasLoaded started.document places texts program)
          ∧ (∃ rows, exit.output
              = Layout.rows (sheetWrites program sheet) ++ Layout.rows rows
            ∧ List.Forall₂ (IsRow (isBeside env options)) rows results)
          ∧ results.length = max 1 (lines sheet).length
          ∧ exit.code = if ∃ r ∈ results, r.isFailure = true then 1 else 0 := by
  refine ⟨fun hmissing => run_of_not_start hparse fun started hstart => ?_,
    fun places texts program sheet hloads hsheet => ?_⟩
  · obtain ⟨hload, hsource, _⟩ := start_eq_ok_iff.mp hstart
    rcases hmissing with hnone | hnone
    · obtain ⟨places, texts, program, hloads, _⟩ := loads_of_loadAll hload
      exact hnone ⟨places, texts, program, hloads⟩
    · obtain ⟨sheet, _, hsheet⟩ := (sourceOf_eq_ok_iff hmode hinput).mp hsource
      exact hnone ⟨sheet, hsheet⟩
  · obtain ⟨doc, hload⟩ := hloads.loadAll
    have hhas := hloads.hasLoaded hload
    have hsource := (sourceOf_eq_ok_iff hmode hinput).mpr ⟨sheet, rfl, hsheet⟩
    obtain ⟨started, hstart, hdocument, htext⟩ : ∃ started, start env options = .ok started
        ∧ started.document = doc ∧ started.source = .text sheet :=
      ⟨⟨_, doc, .text sheet, _⟩, start_eq_ok_iff.mpr ⟨hload, hsource, rfl, rfl⟩, rfl, rfl⟩
    obtain ⟨houtput, hcode⟩ := run_of_start hparse hstart
    rw [work_of_text hstart htext, hdocument] at houtput hcode
    obtain ⟨rows, hrows, hshown⟩ := evaluate_output (isBeside env options) doc sheet
    rw [loadAll_written rfl hload, hhas.program_eq] at hrows
    rw [evaluator, hhas.program_eq] at hshown
    refine ⟨⟨started, hstart, hdocument ▸ hhas⟩, ⟨rows, houtput.trans hrows, hshown⟩,
      sheetResults_length _ _, ?_⟩
    rw [hcode, ← hhas.program_eq, evaluate_code]
    rfl

end

/-- A folder with the functions that are always loaded, more functions, and a sheet on the input. -/
def withFunctions : Environment where
  files := ((FileTree.empty ["d"]).write "default.rhai" "fn t(x) { x + x }".toUTF8).write "a.rhai"
    "fn u(x) { t(x) }".toUTF8
  configFolder := "/d"
  input := "u(2)\n\nu(".toUTF8
  terminal := false

theorem exists_of_isOk {ε α : Type} {r : Except ε α} (h : r.isOk = true) : ∃ a, r = .ok a := by
  cases r with
  | error e => cases h
  | ok a => exact ⟨a, rfl⟩

theorem loads_withFunctions : ∃ program, Loads withFunctions.files
    ["/d/default.rhai", "a.rhai", "./../d/a.rhai"] ["/d/default.rhai", "/d/a.rhai"]
    ["fn t(x) { x + x }", "fn u(x) { t(x) }"] program := by
  have hall : ["/d/default.rhai", "a.rhai", "./../d/a.rhai"].mapM withFunctions.files.canonical
      = .ok ["/d/default.rhai", "/d/a.rhai", "/d/a.rhai"] := by decide +kernel
  have hfirst : Holds withFunctions.files "/d/default.rhai" "fn t(x) { x + x }" :=
    ⟨"fn t(x) { x + x }".toUTF8, by rfl, by decide +kernel, by decide +kernel⟩
  have hsecond : Holds withFunctions.files "/d/a.rhai" "fn u(x) { t(x) }" :=
    ⟨"fn u(x) { t(x) }".toUTF8, by rfl, by decide +kernel, by decide +kernel⟩
  have hone : (compiled (scriptOf ["fn t(x) { x + x }"])).isOk = true := by decide +kernel
  have hboth : (compiled (scriptOf ["fn t(x) { x + x }", "fn u(x) { t(x) }"])).isOk = true := by
    decide +kernel
  obtain ⟨program, hprogram⟩ := exists_of_isOk hboth
  refine ⟨program, ⟨_, mapM_eq_ok_iff.mp hall, by decide⟩, .cons hfirst (.cons hsecond .nil), ?_,
    hprogram⟩
  intro front hfront
  simp only [List.prefix_cons_iff, List.prefix_nil] at hfront
  obtain rfl | ⟨_, rfl, rfl | ⟨_, rfl, rfl⟩⟩ := hfront
  · exact ⟨.empty, rfl⟩
  · exact exists_of_isOk hone
  · exact exists_of_isOk hboth

/-- Three files are asked for, two of which are one; the last line fails. -/
theorem run_batch_withFunctions :
    let args := ["-s", "-f", "a.rhai", "-f", "./../d/a.rhai"]
    let options : Options := { sideBySide := true, functions := ["a.rhai", "./../d/a.rhai"] }
    parse args = .ok options ∧ options.interactive = false ∧ withFunctions.terminal = false
      ∧ ((run withFunctions args).output, (run withFunctions args).code)
        = ("u(2) │ 4\n     │ \nu(   │ Invalid expression\n", 1)
      ∧ ∃ started, start withFunctions options = .ok started
        ∧ started.document.functionFiles = ["/d/default.rhai", "/d/a.rhai"] := by
  intro args options
  have hpaths : functionPaths withFunctions options
      = ["/d/default.rhai", "a.rhai", "./../d/a.rhai"] := by decide +kernel
  have hsheet : SheetText withFunctions options "u(2)\n\nu(" :=
    .input rfl (.inl rfl) (by decide +kernel)
  have hrun := run_batch withFunctions args options rfl rfl rfl
  simp only [hpaths] at hrun
  obtain ⟨program, hloads⟩ := loads_withFunctions
  obtain ⟨⟨started, hstart, hhas⟩, _⟩ := hrun.2 _ _ program _ hloads hsheet
  exact ⟨rfl, rfl, rfl, by decide +kernel, started, hstart, hhas.files_eq⟩

/-- A single line can leave two rows: what it writes, and what it is. -/
theorem run_batch_printing :
    let args := ["-c", "print(1)"]
    parse args = .ok { commands := ["print(1)"] }
      ∧ SheetText bare { commands := ["print(1)"] } "print(1)" ∧ lines "print(1)" = ["print(1)"]
      ∧ (run bare args).output = "1.0\nInvalid expression\n"
      ∧ ¬ ∃ row, '\n' ∉ row.toList ∧ (run bare args).output = Layout.rows [row] := by
  intro args
  have houtput : (run bare args).output = "1.0\nInvalid expression\n" := by decide +kernel
  refine ⟨rfl, .values (List.cons_ne_nil _ _), by decide +kernel, houtput, ?_⟩
  rintro ⟨row, hrow, heq⟩
  rw [houtput] at heq
  have hchars : row.toList ++ ['\n'] = "1.0\nInvalid expression".toList ++ ['\n'] := by
    simpa [Layout.rows] using congrArg String.toList heq.symm
  rw [List.append_cancel_right hchars] at hrow
  exact hrow (by decide)

end CommandLine

end SumSheet
