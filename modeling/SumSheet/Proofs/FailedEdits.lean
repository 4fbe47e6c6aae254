/-
SumSheet.Proofs.FailedEdits — when an operation on a document fails, and
what it then leaves behind.

`Refuses` lists the cases in which an operation fails, each with its
error: on the side of the lines an id that no line has and the removal
of the last line, on the side of the functions a file that cannot be
found or read and a script that does not compile. `edit_eq_error_iff`
says that an operation fails in these cases and no others.

An operation that fails gives back a document too, and it could have been
changed before the failure: the files, the script, the functions and the
results are changed one after the other. `document_of_error` says that it
is the document that there was. So a failure can be struck out of any run
(`edit_fails_iff`).

  §1 Files      — what a file with functions must be.
  §2 Refusals   — the cases, as a relation.
  §3 Lines      — the operations on lines fail as listed.
  §4 Functions  — so do loading and reloading.
  §5 Documents  — what a failure leaves behind.
  §6 Runs       — a failed operation can be left out.

The cases of one operation exclude each other, so the relation also says
which error comes first: a file that is too large is never read, and one
that is loaded already is never compiled.
-/
import SumSheet.Proofs.DocumentInvariant

namespace SumSheet

open Script

/-! ## §1 Files -/

/-- Reading in three steps: the bytes, their number, and what they encode. -/
theorem FileTree.readLimited_eq (files : FileTree) (kind : String) (limit : Nat) (path : String) :
    files.readLimited kind limit path
      = match files.readBytes path with
        | .error cause => .error cause
        | .ok content =>
          if limit < content.size then .error (.tooLarge path kind content.size limit)
          else
            match String.fromUTF8? content with
            | none => .error .notText
            | some text => .ok text := by
  unfold readLimited decode
  cases files.readBytes path with
  | error cause => rfl
  | ok content =>
    by_cases hsize : limit < content.size
    · simp [hsize, bind, Except.bind, throw, throwThe, MonadExceptOf.throw]
    · cases htext : String.fromUTF8? content <;> simp [hsize, htext, bind, Except.bind]

namespace Document

/-- A file with functions holds a text: its bytes can be read, are not too many, and encode it. -/
def Holds (files : FileTree) (path text : String) : Prop :=
  ∃ content, files.readBytes path = .ok content ∧ content.size ≤ 1048576
    ∧ String.fromUTF8? content = some text

/-- Why a file with functions cannot be used. -/
inductive Unusable (files : FileTree) (path : String) : FileError → Prop
  | unreadable {cause : FileError} (hread : files.readBytes path = .error cause) :
      Unusable files path cause
  | tooLarge {content : ByteArray} (hread : files.readBytes path = .ok content)
      (hsize : 1048576 < content.size) :
      Unusable files path (.tooLarge path "functions file" content.size 1048576)
  | notText {content : ByteArray} (hread : files.readBytes path = .ok content)
      (hsize : content.size ≤ 1048576) (htext : String.fromUTF8? content = none) :
      Unusable files path .notText

section

variable {files : FileTree} {path : String}

theorem readFunctions_eq (files : FileTree) (path : String) :
    readFunctions files path
      = match files.readBytes path with
        | .error cause => .error (.file cause)
        | .ok content =>
          if 1048576 < content.size then
            .error (.file (.tooLarge path "functions file" content.size 1048576))
          else
            match String.fromUTF8? content with
            | none => .error (.file .notText)
            | some text => .ok text := by
  rw [readFunctions, FileTree.readLimited_eq, functionFileLimit]
  cases files.readBytes path with
  | error cause => rfl
  | ok content =>
    by_cases hsize : 1048576 < content.size
    · simp [hsize, Except.mapError]
    · cases htext : String.fromUTF8? content <;> simp [hsize, htext, Except.mapError]

theorem readFunctions_eq_ok_iff {text : String} :
    readFunctions files path = .ok text ↔ Holds files path text := by
  rw [readFunctions_eq]
  constructor
  · intro h
    split at h
    · cases h
    · rename_i content hread
      split at h
      · cases h
      · split at h
        · cases h
        · cases h
          exact ⟨content, hread, by omega, ‹_›⟩
  · rintro ⟨content, hread, hsize, htext⟩
    simp [hread, htext, Nat.not_lt.mpr hsize]

theorem readFunctions_eq_error_iff {cause : Error} :
    readFunctions files path = .error cause
      ↔ ∃ reason, cause = .file reason ∧ Unusable files path reason := by
  rw [readFunctions_eq]
  constructor
  · intro h
    split at h
    · rename_i reason hread
      cases h
      exact ⟨reason, rfl, .unreadable hread⟩
    · rename_i content hread
      split at h
      · rename_i hsize
        cases h
        exact ⟨_, rfl, .tooLarge hread hsize⟩
      · split at h
        · cases h
          exact ⟨_, rfl, .notText hread (by omega) ‹_›⟩
        · cases h
  · rintro ⟨reason, rfl, hread | ⟨hread, hsize⟩ | ⟨hread, hsize, htext⟩⟩
    · simp [hread]
    · simp [hread, hsize]
    · simp [hread, htext, Nat.not_lt.mpr hsize]

end

section

variable {α β ε : Type} {f : α → Except ε β}

theorem map_eq_error_iff {g : α → β} {r : Except ε α} {cause : ε} :
    r.map g = .error cause ↔ r = .error cause := by
  cases r <;> simp [Except.map]

/-- A list is gone through from the front, and all of it must succeed. -/
theorem mapM_eq_ok_iff {xs : List α} {ys : List β} :
    xs.mapM f = .ok ys ↔ List.Forall₂ (fun x y => f x = .ok y) xs ys := by
  induction xs generalizing ys with
  | nil => cases ys <;> simp [pure, Except.pure]
  | cons x rest ih =>
    rw [List.mapM_cons]
    cases hx : f x with
    | error cause => cases ys <;> simp [bind, Except.bind, hx]
    | ok y =>
      cases hrest : rest.mapM f with
      | error cause => cases ys <;> simp [bind, Except.bind, ← ih, hrest, hx]
      | ok others => cases ys <;> simp [bind, Except.bind, pure, Except.pure, ← ih, hrest, hx]

/-- The first failure is the failure of the whole. -/
theorem mapM_eq_error_iff {xs : List α} {cause : ε} :
    xs.mapM f = .error cause
      ↔ ∃ before x behind, xs = before ++ x :: behind
        ∧ (∀ other ∈ before, ∃ y, f other = .ok y) ∧ f x = .error cause := by
  induction xs with
  | nil => simp [pure, Except.pure]
  | cons x rest ih =>
    rw [List.mapM_cons]
    cases hx : f x with
    | error reason =>
      constructor
      · rintro ⟨⟩
        exact ⟨[], x, rest, rfl, by simp, hx⟩
      · rintro ⟨_ | ⟨other, before⟩, x', behind, hxs, hbefore, hx'⟩
        · obtain ⟨rfl, rfl⟩ := List.cons.inj hxs
          rw [← hx, hx']
          rfl
        · obtain ⟨rfl, rfl⟩ := List.cons.inj hxs
          obtain ⟨y, hy⟩ := hbefore x (by simp)
          simp [hx] at hy
    | ok y =>
      have hmap : (rest.mapM f = .error cause) ↔
          (do let y ← Except.ok y; let ys ← rest.mapM f; pure (y :: ys)) = .error cause := by
        cases rest.mapM f <;> simp [bind, Except.bind, pure, Except.pure]
      rw [← hmap, ih]
      constructor
      · rintro ⟨before, x', behind, rfl, hbefore, hx'⟩
        exact ⟨x :: before, x', behind, rfl, by simpa [hx] using hbefore, hx'⟩
      · rintro ⟨_ | ⟨other, before⟩, x', behind, hxs, hbefore, hx'⟩
        · obtain ⟨rfl, rfl⟩ := List.cons.inj hxs
          simp [hx] at hx'
        · obtain ⟨rfl, rfl⟩ := List.cons.inj hxs
          exact ⟨before, x', behind, rfl, fun o ho => hbefore o (by simp [ho]), hx'⟩

end

/-! ## §2 Refusals -/

/-- The script that the text of another file makes with the one there is. -/
def merged : Option String → String → String
  | none, text => text
  | some script, text => script ++ "\n\n" ++ text

theorem joinScripts_toList (script : Option String) (text : String) :
    joinScripts (script.toList ++ [text]) = merged script text := by
  cases script <;> simp [joinScripts, merged, String.intercalate_cons_cons]

section

variable [Engine]

/-- The cases in which an operation fails. The other operations never do. -/
inductive Refuses (doc : Document) : Edit → Error → Prop
  | setText {id : Nat} {text : String} (hid : ∀ line ∈ doc.lines, line.id ≠ id) :
      doc.Refuses (.setText id text) (.unknownLine id)
  | insertAfter {id : Nat} {text : String} (hid : ∀ line ∈ doc.lines, line.id ≠ id) :
      doc.Refuses (.insertAfter id text) (.unknownLine id)
  | remove {id : Nat} (hid : ∀ line ∈ doc.lines, line.id ≠ id) :
      doc.Refuses (.remove id) (.unknownLine id)
  | removeIfEmpty {id : Nat} (hid : ∀ line ∈ doc.lines, line.id ≠ id) :
      doc.Refuses (.removeIfEmpty id) (.unknownLine id)
  | lastLine {line : Line} (honly : doc.lines = [line]) :
      doc.Refuses (.remove line.id) .lastLine
  | lost {files : FileTree} {path : String} {reason : FileError}
      (hlost : files.canonical path = .error reason) :
      doc.Refuses (.loadFunctions files path) (.file reason)
  | unusable {files : FileTree} {path found : String} {reason : FileError}
      (hfound : files.canonical path = .ok found) (hfile : Unusable files found reason) :
      doc.Refuses (.loadFunctions files path) (.file reason)
  | rejected {files : FileTree} {path found text : String} {cause : CompileError}
      (hfound : files.canonical path = .ok found) (hfile : Holds files found text)
      (hnew : found ∉ doc.functionFiles)
      (hscript : Engine.compile (merged doc.script text) = .error cause) :
      doc.Refuses (.loadFunctions files path) (.rejected (some found) cause)
  | nothingLoaded {files : FileTree} (hnone : doc.functionFiles = []) :
      doc.Refuses (.reloadFunctions files) .nothingLoaded
  | unusableNow {files : FileTree} {before behind : List String} {path : String}
      {reason : FileError} (hfiles : doc.functionFiles = before ++ path :: behind)
      (hbefore : ∀ other ∈ before, ∃ text, Holds files other text)
      (hfile : Unusable files path reason) :
      doc.Refuses (.reloadFunctions files) (.file reason)
  | rejectedNow {files : FileTree} {texts : List String} {cause : CompileError}
      (hsome : doc.functionFiles ≠ [])
      (hfiles : List.Forall₂ (Holds files) doc.functionFiles texts)
      (hscript : Engine.compile (joinScripts texts) = .error cause) :
      doc.Refuses (.reloadFunctions files) (.rejected none cause)

/-! ## §3 Lines -/

section

variable {doc : Document} {id : Nat} {cause : Error}

theorem position?_eq_none_iff : doc.position? id = none ↔ ∀ line ∈ doc.lines, line.id ≠ id := by
  simp [position?, List.findIdx?_eq_none_iff]

/-- The only line is at the only position. -/
theorem position?_of_size_le_one (hsize : doc.size ≤ 1) {i : Nat}
    (hi : doc.position? id = some i) : ∃ line, doc.lines = [line] ∧ line.id = id := by
  obtain ⟨hlt, hid, _⟩ := List.findIdx?_eq_some_iff_getElem.mp hi
  obtain ⟨line, hline⟩ := List.length_eq_one_iff.mp (show doc.lines.length = 1 by
    unfold size at hsize; omega)
  refine ⟨line, hline, ?_⟩
  have hzero : i = 0 := by simp only [hline, List.length_singleton] at hlt; omega
  subst hzero
  simpa [hline] using hid

theorem setText_eq_error_iff {text : String} :
    (doc.setText id text).result = .error cause ↔ doc.Refuses (.setText id text) cause := by
  rw [setText_eq]
  constructor
  · intro h
    split at h
    · cases h
      exact .setText (position?_eq_none_iff.mp ‹_›)
    · cases h
  · intro h
    cases h with
    | setText hid => rw [position?_eq_none_iff.mpr hid]

theorem insertAfter_eq_error_iff {text : String} :
    (doc.insertAfter id text).result = .error cause
      ↔ doc.Refuses (.insertAfter id text) cause := by
  rw [insertAfter_eq]
  constructor
  · intro h
    split at h
    · cases h
      exact .insertAfter (position?_eq_none_iff.mp ‹_›)
    · cases h
  · intro h
    cases h with
    | insertAfter hid => rw [position?_eq_none_iff.mpr hid]

theorem remove_eq_error_iff :
    (doc.remove id).result = .error cause ↔ doc.Refuses (.remove id) cause := by
  rw [remove_eq]
  constructor
  · intro h
    split at h
    · cases h
      exact .remove (position?_eq_none_iff.mp ‹_›)
    · split at h
      · cases h
        obtain ⟨line, honly, rfl⟩ := position?_of_size_le_one ‹_› ‹_›
        exact .lastLine honly
      · cases h
  · intro h
    cases h with
    | remove hid => rw [position?_eq_none_iff.mpr hid]
    | lastLine honly => simp [position?, size, honly]

theorem removeIfEmpty_eq_error_iff :
    (doc.removeIfEmpty id).result = .error cause ↔ doc.Refuses (.removeIfEmpty id) cause := by
  rw [removeIfEmpty_eq]
  constructor
  · intro h
    split at h
    · cases h
      exact .removeIfEmpty (position?_eq_none_iff.mp ‹_›)
    · split at h <;> cases h
  · intro h
    cases h with
    | removeIfEmpty hid => rw [position?_eq_none_iff.mpr hid]

/-! ## §4 Functions -/

theorem loadFunctions_eq_error_iff {files : FileTree} {path : String} :
    (doc.loadFunctions files path).result = .error cause
      ↔ doc.Refuses (.loadFunctions files path) cause := by
  simp only [loadFunctions_eq, joinScripts_toList]
  constructor
  · intro h
    split at h
    · cases h
      exact .lost ‹_›
    · rename_i hfound
      split at h
      · rename_i htext
        cases h
        obtain ⟨reason, rfl, hfile⟩ := readFunctions_eq_error_iff.mp htext
        exact .unusable hfound hfile
      · rename_i htext
        split at h
        · cases h
        · rename_i hnew
          split at h <;> cases h
          exact .rejected hfound (readFunctions_eq_ok_iff.mp htext) hnew ‹_›
  · intro h
    cases h with
    | lost hlost => simp [hlost]
    | unusable hfound hfile => simp [hfound, readFunctions_eq_error_iff.mpr ⟨_, rfl, hfile⟩]
    | rejected hfound hfile hnew hscript =>
      simp [hfound, readFunctions_eq_ok_iff.mpr hfile, hnew, hscript]

theorem reloadFunctions_eq_error_iff {files : FileTree} :
    (doc.reloadFunctions files).result = .error cause
      ↔ doc.Refuses (.reloadFunctions files) cause := by
  rw [reloadFunctions_eq]
  constructor
  · intro h
    split at h
    · cases h
      exact .nothingLoaded ‹_›
    · rename_i hsome
      split at h
      · rename_i htexts
        cases h
        obtain ⟨before, path, behind, hfiles, hbefore, hread⟩ := mapM_eq_error_iff.mp htexts
        obtain ⟨reason, rfl, hfile⟩ := readFunctions_eq_error_iff.mp hread
        refine .unusableNow hfiles (fun other hother => ?_) hfile
        obtain ⟨text, htext⟩ := hbefore other hother
        exact ⟨text, readFunctions_eq_ok_iff.mp htext⟩
      · rename_i htexts
        split at h <;> cases h
        exact .rejectedNow hsome
          ((mapM_eq_ok_iff.mp htexts).imp fun _ _ => readFunctions_eq_ok_iff.mp) ‹_›
  · intro h
    cases h with
    | nothingLoaded hnone => rw [if_pos hnone]
    | unusableNow hfiles hbefore hfile =>
      have hread := readFunctions_eq_error_iff.mpr ⟨_, rfl, hfile⟩
      have htexts : readAll files doc.functionFiles = .error _ :=
        mapM_eq_error_iff.mpr ⟨_, _, _, hfiles,
          fun other hother => (hbefore other hother).imp fun _ => readFunctions_eq_ok_iff.mpr,
          hread⟩
      rw [if_neg (by simp [hfiles]), htexts]
    | rejectedNow hsome hfiles hscript =>
      have htexts : readAll files doc.functionFiles = .ok _ :=
        mapM_eq_ok_iff.mpr (hfiles.imp fun _ _ => readFunctions_eq_ok_iff.mpr)
      rw [if_neg hsome, htexts]
      simp only [hscript]

/-- An operation fails in the cases listed, with the errors listed there. -/
theorem edit_eq_error_iff {e : Edit} :
    (doc.edit e).result = .error cause ↔ doc.Refuses e cause := by
  cases e with
  | setText id text => exact setText_eq_error_iff
  | insertAfter id text => exact map_eq_error_iff.trans insertAfter_eq_error_iff
  | push text => exact iff_of_false nofun nofun
  | remove id => exact remove_eq_error_iff
  | removeIfEmpty id => exact map_eq_error_iff.trans removeIfEmpty_eq_error_iff
  | replaceAll texts => exact iff_of_false nofun nofun
  | recalculate => exact iff_of_false nofun nofun
  | loadFunctions files path => exact map_eq_error_iff.trans loadFunctions_eq_error_iff
  | reloadFunctions files => exact map_eq_error_iff.trans reloadFunctions_eq_error_iff

/-! ## §5 Documents -/

/-- What an operation that fails leaves behind is the document that there was: all that can fail
comes before the first change. -/
theorem document_of_error {e : Edit} (h : (doc.edit e).result = .error cause) :
    (doc.edit e).document = doc := by
  revert h
  -- in each case of an operation, the document is the old one or the result is no error
  cases e with
  | setText id text =>
    rw [edit, setText_eq]
    split
    · exact fun _ => rfl
    · exact nofun
  | insertAfter id text =>
    rw [edit, insertAfter_eq]
    split
    · exact fun _ => rfl
    · exact nofun
  | remove id =>
    rw [edit, remove_eq]
    split
    · exact fun _ => rfl
    · split
      · exact fun _ => rfl
      · exact nofun
  | removeIfEmpty id =>
    rw [edit, removeIfEmpty_eq]
    split
    · exact fun _ => rfl
    · split <;> exact nofun
  | loadFunctions files path =>
    rw [edit, loadFunctions_eq]
    split
    · exact fun _ => rfl
    · split
      · exact fun _ => rfl
      · split
        · exact nofun
        · split
          · exact fun _ => rfl
          · exact nofun
  | reloadFunctions files =>
    rw [edit, reloadFunctions_eq]
    split
    · exact fun _ => rfl
    · split
      · exact fun _ => rfl
      · split
        · exact fun _ => rfl
        · exact nofun
  | push text | replaceAll texts | recalculate => exact nofun

end

/-! ## §6 Runs -/

/-- A failed operation leaves the document to those that follow as those before have made it. -/
theorem run_append_cons {doc : Document} {edits : List Edit} {e : Edit} {cause : Error}
    (h : ((doc.run edits).edit e).result = .error cause) (later : List Edit) :
    doc.run (edits ++ e :: later) = doc.run (edits ++ later) := by
  have hafter : (doc.run edits).after e = doc.run edits := document_of_error h
  simp only [run, List.foldl_append, List.foldl_cons] at hafter ⊢
  rw [hafter]

/-- **An operation fails in its stated cases and in no others, and a failure changes nothing.**
Whatever has been done to a document, an operation on it gives an error exactly if that error is
among the listed ones; the document that it then leaves behind is the one that there was, for every
expression and every later operation. -/
theorem edit_fails_iff (opening : Opening) (edits : List Edit) (e : Edit) (cause : Error) :
    let doc := opening.document.run edits
    ((doc.edit e).result = .error cause ↔ doc.Refuses e cause)
      ∧ ((doc.edit e).result = .error cause → (doc.edit e).document = doc
        ∧ ∀ later, opening.document.run (edits ++ e :: later)
          = opening.document.run (edits ++ later)) :=
  ⟨edit_eq_error_iff, fun h => ⟨document_of_error h, run_append_cons h⟩⟩

end

/-- Two files, the second of which is gone when they are loaded again. -/
def secondFileGone : FileTree × FileTree :=
  let first := (FileTree.empty ["d"]).write "a.rhai" "fn a(x) { x }".toUTF8
  (first.write "b.rhai" "fn b(x) { a(x) }".toUTF8, first)

/-- A reload can fail midway: the first file is read, the second one is not there. -/
theorem reload_fails_midway :
    let (files, later) := secondFileGone
    let doc := (Opening.ofTexts ["b(1)"]).document.run
      [.loadFunctions files "a.rhai", .loadFunctions files "b.rhai"]
    doc.functionFiles = ["/d/a.rhai", "/d/b.rhai"] ∧ doc.resultTexts = ["1"]
      ∧ (doc.edit (.reloadFunctions later)).result = .error (.file .notFound)
      ∧ (doc.edit (.reloadFunctions later)).document = doc := by
  have hfiles : ((Opening.ofTexts ["b(1)"]).document.run
      [.loadFunctions secondFileGone.1 "a.rhai",
        .loadFunctions secondFileGone.1 "b.rhai"]).functionFiles
        = ["/d/a.rhai"] ++ "/d/b.rhai" :: [] := by decide +kernel
  have hfirst : Holds secondFileGone.2 "/d/a.rhai" "fn a(x) { x }" :=
    ⟨"fn a(x) { x }".toUTF8, by rfl, by decide +kernel, by decide +kernel⟩
  have hsecond : Unusable secondFileGone.2 "/d/b.rhai" .notFound := .unreadable (by rfl)
  have hiff := edit_fails_iff (.ofTexts ["b(1)"])
    [.loadFunctions secondFileGone.1 "a.rhai", .loadFunctions secondFileGone.1 "b.rhai"]
    (.reloadFunctions secondFileGone.2) (.file .notFound)
  have hfails := hiff.1.mpr (.unusableNow hfiles (by simpa using ⟨_, hfirst⟩) hsecond)
  exact ⟨hfiles, by decide +kernel, hfails, (hiff.2 hfails).1⟩

end Document

end SumSheet
