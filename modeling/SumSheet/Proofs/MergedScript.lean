/-
SumSheet.Proofs.MergedScript — the script of a document is what its files
held when they were last merged.

Two operations make the script. Loading puts one more file behind the
script there is; reloading reads all files anew and joins what they hold.
A `Record` notes beside a run which files take part and with which text,
and knows nothing of scripts. `Agrees` says that the document has the
files of the record, in their order, and that its script is the texts of
the record with an empty line between any two. Every operation keeps
that, so it makes no difference in which of the two ways a script came
about, and reloading files that have not changed changes nothing
(`script_of_run`).

With no file loaded there is nothing to reload, and reloading says so
(`reloadFunctions_none`).

  §1 Records    — which files were merged, and with which text.
  §2 Scripts    — the script that a record makes.
  §3 Operations — one of them keeps document and record in agreement.
  §4 Runs       — and so does a run.
-/
import SumSheet.Proofs.FailedEdits

namespace SumSheet

open Script

namespace Document

/-! ## §1 Records -/

/-- A file with functions, and the text it had when it was last merged. -/
structure Merge where
  file : String
  text : String
  deriving DecidableEq

/-- The files merged so far, in the order in which they were loaded. -/
abbrev Record := List Merge

/-- A file with the text it has now, or none if it cannot be used. -/
def Merge.now (files : FileTree) (file : String) : Merge :=
  ⟨file, (readFunctions files file).toOption.getD ""⟩

theorem now_of_holds {files : FileTree} {file text : String} (h : Holds files file text) :
    Merge.now files file = ⟨file, text⟩ := by
  rw [Merge.now, readFunctions_eq_ok_iff.mpr h]
  rfl

section

variable [Engine]

/-- The record behind an operation. A file that is loaded comes last, unless it is there already;
reloading takes all texts as they are now. An operation that fails is not recorded. -/
def Record.after (record : Record) (doc : Document) : Edit → Record
  | .loadFunctions files path =>
    match (doc.loadFunctions files path).result with
    | .ok found =>
      if found ∈ record.map (·.file) then record else record ++ [.now files found]
    | .error _ => record
  | .reloadFunctions files =>
    match (doc.reloadFunctions files).result with
    | .ok _ => record.map fun m => .now files m.file
    | .error _ => record
  | _ => record

/-- The record behind a run of operations. -/
def Record.run (record : Record) (doc : Document) : List Edit → Record
  | [] => record
  | e :: rest => (record.after doc e).run (doc.after e) rest

/-- A failed operation is not recorded. -/
theorem Record.after_of_error {doc : Document} {record : Record} {e : Edit} {cause : Error}
    (h : (doc.edit e).result = .error cause) : record.after doc e = record := by
  cases e with
  | loadFunctions files path =>
    simp only [Record.after, map_eq_error_iff.mp h]
  | reloadFunctions files =>
    simp only [Record.after, map_eq_error_iff.mp h]
  | _ => rfl

end

/-- Reloading neither adds files nor drops any. -/
theorem files_now (files : FileTree) (record : Record) :
    (record.map fun m => Merge.now files m.file).map (·.file) = record.map (·.file) := by
  simp [Merge.now]

/-- What files hold now is what was read from them. -/
theorem texts_of_holds {files : FileTree} {record : Record} {texts : List String}
    (h : List.Forall₂ (Holds files) (record.map (·.file)) texts) :
    texts = (record.map fun m => Merge.now files m.file).map (·.text) := by
  induction record generalizing texts with
  | nil =>
    cases h
    rfl
  | cons m rest ih =>
    obtain _ | ⟨htext, hrest⟩ := h
    rw [ih hrest, List.map_cons, List.map_cons, now_of_holds htext]

/-! ## §2 Scripts -/

/-- The script of texts in a row, with an empty line between any two. No text makes no script. -/
def scriptOf : List String → Option String
  | [] => none
  | text :: rest => some ("\n\n".intercalate (text :: rest))

theorem scriptOf_texts (record : Record) :
    scriptOf (record.map (·.text))
      = if record = [] then none else some ("\n\n".intercalate (record.map (·.text))) := by
  cases record <;> rfl

theorem scriptOf_of_ne_nil {texts : List String} (h : texts ≠ []) :
    scriptOf texts = some ("\n\n".intercalate texts) := by
  cases texts with
  | nil => exact absurd rfl h
  | cons text rest => rfl

/-- Behind a script, one more text stands as it would stand behind the texts of the script. -/
theorem joinScripts_scriptOf (texts : List String) (text : String) :
    joinScripts ((scriptOf texts).toList ++ [text]) = "\n\n".intercalate (texts ++ [text]) := by
  cases texts with
  | nil => rfl
  | cons first rest =>
    rw [scriptOf, Option.toList_some, joinScripts,
      String.intercalate_append_of_ne_nil (by simp) (by simp), String.intercalate_singleton,
      String.intercalate_append_of_ne_nil (by simp) (by simp)]

section

variable [Engine]

/-! ## §3 Operations -/

/-- The document has the files of the record and the script that their texts make. -/
structure Agrees (doc : Document) (record : Record) : Prop where
  files_eq : doc.functionFiles = record.map (·.file)
  script_eq : doc.script = scriptOf (record.map (·.text))

/-- The operations on lines leave files and script alone. -/
theorem files_of_edit {doc doc' : Document} {e : Edit} (h : doc.edit e = ⟨.ok (), doc'⟩)
    (hload : ∀ files path, e ≠ .loadFunctions files path)
    (hreload : ∀ files, e ≠ .reloadFunctions files) :
    doc'.functionFiles = doc.functionFiles ∧ doc'.script = doc.script := by
  cases e with
  | setText id text =>
    rw [edit, setText_eq] at h
    split at h <;> cases h
    exact ⟨rfl, rfl⟩
  | insertAfter id text =>
    rw [edit, insertAfter_eq] at h
    split at h <;> cases h
    exact ⟨rfl, rfl⟩
  | push text => cases h; exact ⟨rfl, rfl⟩
  | remove id =>
    rw [edit, remove_eq] at h
    split at h
    · cases h
    · split at h <;> cases h
      exact ⟨rfl, rfl⟩
  | removeIfEmpty id =>
    rw [edit, removeIfEmpty_eq] at h
    split at h
    · cases h
    · split at h <;> cases h <;> exact ⟨rfl, rfl⟩
  | replaceAll texts => cases h; exact ⟨rfl, rfl⟩
  | recalculate => cases h; exact ⟨rfl, rfl⟩
  | loadFunctions files path => exact absurd rfl (hload files path)
  | reloadFunctions files => exact absurd rfl (hreload files)

namespace Agrees

variable {doc doc' : Document} {record : Record} (h : doc.Agrees record)

include h

/-- A file that is there already contributes nothing, by whatever path it is loaded. -/
theorem loadFunctions_again {files : FileTree} {path found : String}
    (hload : doc.loadFunctions files path = ⟨.ok found, doc'⟩)
    (hold : found ∈ record.map (·.file)) : doc' = doc := by
  rw [← h.files_eq] at hold
  obtain ⟨_, _, _, ⟨_, rfl⟩ | ⟨hnew, _⟩⟩ := loadFunctions_ok hload
  · rfl
  · exact absurd hold hnew

/-- Any other file comes last. -/
theorem loadFunctions_new {files : FileTree} {path found : String}
    (hload : doc.loadFunctions files path = ⟨.ok found, doc'⟩)
    (hnew : found ∉ record.map (·.file)) :
    ∃ text, Holds files found text ∧ doc'.Agrees (record ++ [⟨found, text⟩]) := by
  obtain ⟨_, text, htext, ⟨hold, _⟩ | ⟨_, program, _, rfl⟩⟩ := loadFunctions_ok hload
  · rw [h.files_eq] at hold
    exact absurd hold hnew
  · refine ⟨text, readFunctions_eq_ok_iff.mp htext, ?_, ?_⟩
    · rw [List.map_append, ← h.files_eq]
      rfl
    · rw [List.map_append, List.map_singleton, scriptOf_of_ne_nil (by simp),
        ← joinScripts_scriptOf, ← h.script_eq]
      rfl

/-- Reloading makes the same record of the texts of today. -/
theorem reloadFunctions {files : FileTree} {count : Nat}
    (hreload : doc.reloadFunctions files = ⟨.ok count, doc'⟩) :
    count = record.length ∧ List.Forall₂ (Holds files) (record.map (·.file))
        ((record.map fun m => Merge.now files m.file).map (·.text))
      ∧ doc'.Agrees (record.map fun m => .now files m.file) := by
  obtain ⟨hsome, rfl, texts, program, htexts, _, rfl⟩ := reloadFunctions_ok hreload
  rw [h.files_eq] at hsome htexts ⊢
  have hholds := (mapM_eq_ok_iff.mp htexts).imp fun _ _ => readFunctions_eq_ok_iff.mp
  obtain rfl := texts_of_holds hholds
  refine ⟨List.length_map .., hholds, ?_, ?_⟩
  · exact h.files_eq.trans (files_now files record).symm
  · exact (scriptOf_of_ne_nil (by simpa using hsome)).symm

/-- A step of a run: what the operation does to the document, the record notes. -/
theorem edit {e : Edit} (hedit : doc.edit e = ⟨.ok (), doc'⟩) :
    doc'.Agrees (record.after doc e) := by
  cases e with
  | loadFunctions files path =>
    obtain ⟨found, hload⟩ := Answer.eq_of_done hedit
    simp only [Record.after, hload]
    split
    · rw [h.loadFunctions_again hload ‹_›]
      exact h
    · obtain ⟨text, htext, hnext⟩ := h.loadFunctions_new hload ‹_›
      rw [now_of_holds htext]
      exact hnext
  | reloadFunctions files =>
    obtain ⟨count, hreload⟩ := Answer.eq_of_done hedit
    simp only [Record.after, hreload]
    exact (h.reloadFunctions hreload).2.2
  | _ =>
    obtain ⟨hfiles, hscript⟩ := files_of_edit hedit nofun nofun
    exact ⟨hfiles.trans h.files_eq, hscript.trans h.script_eq⟩

theorem after (e : Edit) : (doc.after e).Agrees (record.after doc e) := by
  rcases hedit : doc.edit e with ⟨cause | ⟨⟩, doc'⟩
  · have hfails : (doc.edit e).result = .error cause := by rw [hedit]
    rw [Document.after, document_of_error hfails, Record.after_of_error hfails]
    exact h
  · rw [Document.after, hedit]
    exact h.edit hedit

/-- A run keeps a document in agreement with its record. -/
theorem run (edits : List Edit) : (doc.run edits).Agrees (record.run doc edits) := by
  induction edits generalizing doc record with
  | nil => exact h
  | cons e rest ih => exact ih (h.after e)

end Agrees

theorem agrees_opening (o : Opening) : o.document.Agrees [] := by
  cases o <;> exact ⟨rfl, rfl⟩

/-! ## §4 Runs -/

/-- If the files have not changed, reloading makes the script that is there already, and nothing
that follows from it changes. -/
theorem reloadFunctions_unchanged {doc : Document} {limit : Nat} {record : Record}
    {files : FileTree} (hdoc : doc.WellFormed limit) (h : doc.Agrees record) (hsome : record ≠ [])
    (hsame : ∀ m ∈ record, Holds files m.file m.text) :
    ∃ doc', doc.reloadFunctions files = ⟨.ok record.length, doc'⟩ ∧ doc'.lines = doc.lines
      ∧ doc'.results = doc.results ∧ doc'.program = doc.program
      ∧ doc'.functionFiles = doc.functionFiles ∧ doc'.script = doc.script := by
  have hscript := h.script_eq
  rw [scriptOf_of_ne_nil (by simpa using hsome)] at hscript
  have hcompiled := hdoc.compiled_eq
  rw [hscript, compiled] at hcompiled
  have htexts : readAll files doc.functionFiles = .ok (record.map (·.text)) := by
    rw [readAll, mapM_eq_ok_iff, h.files_eq, List.forall₂_map_left_iff, List.forall₂_map_right_iff,
      List.forall₂_same]
    exact fun m hm => readFunctions_eq_ok_iff.mpr (hsame m hm)
  have hreload : doc.reloadFunctions files
      = ⟨.ok record.length, doc.withScript (joinScripts (record.map (·.text))) doc.program⟩ := by
    rw [reloadFunctions_eq, htexts, if_neg (by simpa [h.files_eq] using hsome)]
    simp only [joinScripts, hcompiled, h.files_eq, List.length_map]
  exact ⟨_, hreload, rfl, hdoc.results_eq.symm, rfl, rfl, hscript.symm⟩

/-- Nothing was loaded, so there is nothing to reload. -/
theorem reloadFunctions_none {doc : Document} (h : doc.Agrees []) (files : FileTree) :
    doc.reloadFunctions files = ⟨.error .nothingLoaded, doc⟩ := by
  rw [reloadFunctions_eq, if_pos (show doc.functionFiles = [] from h.files_eq)]

/-- **The script of a document is what its files held when they were last merged**, in the order in
which they were loaded and with an empty line between any two; it does not matter whether loading or
reloading merged them. Loading a file that is there already changes nothing. Reloading files of
which none has changed succeeds and changes neither lines nor results, files or script; only where
nothing was loaded there is nothing to reload. -/
theorem script_of_run (opening : Opening) (edits : List Edit) :
    let doc := opening.document.run edits
    let record := Record.run [] opening.document edits
    (doc.functionFiles = record.map (·.file)
        ∧ doc.script
          = if record = [] then none else some ("\n\n".intercalate (record.map (·.text))))
      ∧ (∀ files path found doc', doc.loadFunctions files path = ⟨.ok found, doc'⟩ →
        if found ∈ doc.functionFiles then doc' = doc
        else ∃ text, Holds files found text
          ∧ doc'.functionFiles = doc.functionFiles ++ [found]
          ∧ doc'.script = some ("\n\n".intercalate (record.map (·.text) ++ [text])))
      ∧ (∀ files count doc', doc.reloadFunctions files = ⟨.ok count, doc'⟩ →
        count = doc.functionFiles.length ∧ doc'.functionFiles = doc.functionFiles
          ∧ ∃ texts, List.Forall₂ (Holds files) doc.functionFiles texts
            ∧ doc'.script = some ("\n\n".intercalate texts))
      ∧ ∀ files, (∀ m ∈ record, Holds files m.file m.text) →
        if record = [] then doc.reloadFunctions files = ⟨.error .nothingLoaded, doc⟩
        else ∃ doc', doc.reloadFunctions files = ⟨.ok doc.functionFiles.length, doc'⟩
          ∧ doc'.lines = doc.lines ∧ doc'.results = doc.results
          ∧ doc'.functionFiles = doc.functionFiles ∧ doc'.script = doc.script := by
  intro doc record
  have h : doc.Agrees record := (agrees_opening opening).run edits
  refine ⟨⟨h.files_eq, ?_⟩, fun files path found doc' hload => ?_,
    fun files count doc' hreload => ?_, fun files hsame => ?_⟩
  · rw [h.script_eq, scriptOf_texts]
  · rw [h.files_eq]
    split
    · exact h.loadFunctions_again hload ‹_›
    · obtain ⟨text, htext, hnext⟩ := h.loadFunctions_new hload ‹_›
      refine ⟨text, htext, by simpa using hnext.files_eq, ?_⟩
      rw [hnext.script_eq, scriptOf_of_ne_nil (by simp), List.map_append, List.map_singleton]
  · obtain ⟨hcount, hholds, hnext⟩ := h.reloadFunctions hreload
    have hsome := (reloadFunctions_ok hreload).1
    rw [h.files_eq] at hsome ⊢
    refine ⟨hcount.trans (List.length_map ..).symm, ?_, _, hholds, ?_⟩
    · rw [hnext.files_eq, files_now]
    · rw [hnext.script_eq, scriptOf_of_ne_nil (by simpa using hsome)]
  · split
    · rename_i hnone
      exact reloadFunctions_none (hnone ▸ h) files
    · obtain ⟨doc', hreload, hlines, hresults, _, hfiles, hscript⟩ :=
        reloadFunctions_unchanged (wellFormed_run opening edits).1 h ‹_› hsame
      have hcount : doc.functionFiles.length = record.length := by
        rw [h.files_eq, List.length_map]
      exact ⟨doc', hcount ▸ hreload, hlines, hresults, hfiles, hscript⟩

end

/-- Two files, the second of which is empty. -/
def emptySecond : FileTree :=
  ((FileTree.empty ["d"]).write "a.rhai" "fn a(x) { x }".toUTF8).write "e.rhai" "".toUTF8

/-- The operations that load both, and the first one once more by another path. -/
def loadsOfEmptySecond : List Edit :=
  [.loadFunctions emptySecond "a.rhai", .push "a(1)", .loadFunctions emptySecond "e.rhai",
    .loadFunctions emptySecond "../d/./a.rhai"]

/-- An empty file leaves an empty piece in the script, and reloading makes that script again. -/
theorem script_of_run_emptySecond :
    let doc := (Opening.ofTexts ["a(1)"]).document.run loadsOfEmptySecond
    doc.script = some "fn a(x) { x }\n\n" ∧ doc.resultTexts = ["1", "1"]
      ∧ ∃ doc', doc.reloadFunctions emptySecond = ⟨.ok 2, doc'⟩ ∧ doc'.lines = doc.lines
        ∧ doc'.results = doc.results ∧ doc'.functionFiles = ["/d/a.rhai", "/d/e.rhai"]
        ∧ doc'.script = some "fn a(x) { x }\n\n" := by
  intro doc
  have hrecord : Record.run [] (Opening.ofTexts ["a(1)"]).document loadsOfEmptySecond
      = [⟨"/d/a.rhai", "fn a(x) { x }"⟩, ⟨"/d/e.rhai", ""⟩] := by decide +kernel
  have hfirst : Holds emptySecond "/d/a.rhai" "fn a(x) { x }" :=
    ⟨"fn a(x) { x }".toUTF8, by rfl, by decide +kernel, by decide +kernel⟩
  have hsecond : Holds emptySecond "/d/e.rhai" "" :=
    ⟨"".toUTF8, by rfl, by decide +kernel, by decide +kernel⟩
  have h := script_of_run (.ofTexts ["a(1)"]) loadsOfEmptySecond
  simp only [hrecord] at h
  obtain ⟨⟨hfiles, hscript⟩, _, _, hreload⟩ := h
  obtain ⟨doc', hok, hlines, hresults, hfiles', hscript'⟩ :=
    hreload emptySecond (by simp [hfirst, hsecond])
  rw [hfiles] at hok hfiles'
  rw [hscript] at hscript'
  exact ⟨hscript, by decide +kernel, doc', hok, hlines, hresults, hfiles', hscript'⟩

/-- Of no file at all none has changed, and yet there is nothing that could be reloaded. -/
theorem reloadFunctions_blank :
    let doc := Opening.blank.document.run []
    (∀ m ∈ Record.run [] Opening.blank.document [], Holds emptySecond m.file m.text)
      ∧ ¬ ∃ count doc', doc.reloadFunctions emptySecond = ⟨.ok count, doc'⟩ := by
  refine ⟨nofun, ?_⟩
  rintro ⟨count, doc', hreload⟩
  exact (reloadFunctions_ok hreload).1 rfl

end Document

end SumSheet
