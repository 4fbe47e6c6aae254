/-
SumSheet.Proofs.DocumentInvariant — what holds of a document whatever has
been done to it.

A document couples five things: its lines, their results, the functions,
the script they were read from and the files the script was read from.
`Document.WellFormed` says how they belong together, and
`wellFormed_run` that every run of operations keeps it so, from any
opening, whichever operations fail and whatever the files hold at the
time.

An operation goes step by step, and a step that fails is the last one
(`carryOut_bind`). From that follows what each operation gives, as one
equation: the document that it leaves behind, also where it fails.

  §1 Runs       — operations as data, and what a run of them leaves.
  §2 Operations — step by step, and what each of them gives.
  §3 Numbering  — the ids of lines under insertion, removal and renewal.
  §4 Steps      — one operation keeps a document well-formed.
  §5 Places     — the line at a position has its id to itself.
  §6 Results    — looking a result up by id or by position is the same.
  §7 Runs again — the theorem, by induction on the operations.

Ids grow without a bound of their own, so the invariant carries one: the
number of texts the lines were last made of, and of insertions since.
-/
import Mathlib
import SumSheet.Document
import SumSheet.Proofs.PassScope

namespace SumSheet

open Script

namespace Document

section

variable [Engine]

/-! ## §1 Runs -/

/-- How a document comes about. -/
inductive Opening where
  | blank
  | ofTexts (texts : List String)

/-- The document at its beginning. -/
def Opening.document : Opening → Document
  | blank => new
  | ofTexts texts => Document.ofTexts texts

/-- An operation on a document. One that reads files comes with the files as they are then. -/
inductive Edit where
  | setText (id : Nat) (text : String)
  | insertAfter (id : Nat) (text : String)
  | push (text : String)
  | remove (id : Nat)
  | removeIfEmpty (id : Nat)
  | replaceAll (texts : List String)
  | recalculate
  | loadFunctions (files : FileTree) (path : String)
  | reloadFunctions (files : FileTree)

/-- What an operation gives. Of its result only matters whether there is one. -/
def edit (doc : Document) : Edit → Answer Error Unit
  | .setText id text => doc.setText id text
  | .insertAfter id text => (doc.insertAfter id text).done
  | .push text => ⟨.ok (), (doc.push text).2⟩
  | .remove id => doc.remove id
  | .removeIfEmpty id => (doc.removeIfEmpty id).done
  | .replaceAll texts => ⟨.ok (), doc.replaceAll texts⟩
  | .recalculate => ⟨.ok (), doc.recalculate⟩
  | .loadFunctions files path => (doc.loadFunctions files path).done
  | .reloadFunctions files => (doc.reloadFunctions files).done

/-- The document behind an operation, whether it fails or not. -/
def after (doc : Document) (e : Edit) : Document :=
  (doc.edit e).document

/-- The document behind a run of operations. -/
def run (doc : Document) (edits : List Edit) : Document :=
  edits.foldl after doc

/-- Where the lines of a document come from: how many texts they were last made of, and how many
lines have been inserted since. -/
structure Origin where
  built : Nat
  inserted : Nat

/-- The origin of the lines of a new document; of no text, one line is made. -/
def Opening.origin : Opening → Origin
  | blank => ⟨1, 0⟩
  | ofTexts texts => ⟨max 1 texts.length, 0⟩

/-- The origin of the lines behind an operation. An insertion that fails does not count. -/
def Origin.after (o : Origin) (doc : Document) : Edit → Origin
  | .replaceAll texts => ⟨max 1 texts.length, 0⟩
  | .push _ => ⟨o.built, o.inserted + 1⟩
  | .insertAfter id text =>
    match (doc.insertAfter id text).result with
    | .ok _ => ⟨o.built, o.inserted + 1⟩
    | .error _ => o
  | _ => o

/-- The origin of the lines behind a run of operations. -/
def Origin.run (o : Origin) (doc : Document) : List Edit → Origin
  | [] => o
  | e :: rest => (o.after doc e).run (doc.after e) rest

/-! ## §2 Operations -/

section

variable {ε α β : Type} (doc : Document)

/-- What comes behind a step that fails is not done. -/
@[simp] theorem carryOut_bind (action : Action ε α) (next : α → Action ε β) :
    doc.carryOut (action >>= next)
      = match doc.carryOut action with
        | ⟨.ok a, doc'⟩ => doc'.carryOut (next a)
        | ⟨.error cause, doc'⟩ => ⟨.error cause, doc'⟩ := by
  unfold carryOut
  simp only [ExceptT.run_bind, StateT.run_bind]
  rcases action.run.run doc with ⟨_ | a, doc'⟩ <;> rfl

@[simp] theorem carryOut_map (f : α → β) (action : Action ε α) :
    doc.carryOut (f <$> action)
      = ⟨(doc.carryOut action).result.map f, (doc.carryOut action).document⟩ := by
  rw [map_eq_pure_bind, carryOut_bind]
  rcases doc.carryOut action with ⟨_ | a, doc'⟩ <;> rfl

@[simp] theorem carryOut_pure (a : α) :
    doc.carryOut (pure a : Action ε α) = ⟨.ok a, doc⟩ := rfl

@[simp] theorem carryOut_throw (cause : ε) :
    doc.carryOut (throw cause : Action ε α) = ⟨.error cause, doc⟩ := rfl

@[simp] theorem carryOut_get : doc.carryOut (get : Action ε Document) = ⟨.ok doc, doc⟩ := rfl

@[simp] theorem carryOut_modify (f : Document → Document) :
    doc.carryOut (modify f : Action ε PUnit) = ⟨.ok (), f doc⟩ := rfl

@[simp] theorem carryOut_modifyGet (f : Document → α × Document) :
    doc.carryOut (modifyGet f : Action ε α) = ⟨.ok (f doc).1, (f doc).2⟩ := rfl

/-- What has nothing to do with the document leaves it alone. -/
@[simp] theorem carryOut_lift (r : Except ε α) :
    doc.carryOut (liftM r : Action ε α) = ⟨r, doc⟩ := rfl

@[simp] theorem carryOut_position (id : Nat) :
    doc.carryOut (position id)
      = match doc.position? id with
        | some i => ⟨.ok i, doc⟩
        | none => ⟨.error (.unknownLine id), doc⟩ := by
  unfold position
  cases h : doc.position? id <;> simp [h]

theorem Answer.eq_of_done {answer : Answer ε α} {doc' : Document}
    (h : answer.done = ⟨.ok (), doc'⟩) : ∃ a, answer = ⟨.ok a, doc'⟩ := by
  obtain ⟨_ | a, document⟩ := answer <;> cases h
  exact ⟨a, rfl⟩

end

section

variable (doc : Document) (id : Nat) (text : String) (files : FileTree) (path : String)

theorem setText_eq :
    doc.setText id text
      = match doc.position? id with
        | none => ⟨.error (.unknownLine id), doc⟩
        | some i =>
          ⟨.ok (), doc.withLines (doc.lines.modify i fun line => { line with text })⟩ := by
  unfold setText
  cases h : doc.position? id <;> simp [h, withLines]

theorem insertAfter_eq :
    doc.insertAfter id text
      = match doc.position? id with
        | none => ⟨.error (.unknownLine id), doc⟩
        | some i =>
          ⟨.ok doc.nextId, doc.withLines (doc.lines.insertIdx (i + 1) ⟨doc.nextId, text⟩)⟩ := by
  unfold insertAfter
  cases h : doc.position? id <;> simp [h, withLines, Except.map]

theorem remove_eq :
    doc.remove id
      = match doc.position? id with
        | none => ⟨.error (.unknownLine id), doc⟩
        | some i =>
          if doc.size ≤ 1 then ⟨.error .lastLine, doc⟩
          else ⟨.ok (), doc.withLines (doc.lines.eraseIdx i)⟩ := by
  unfold remove
  cases h : doc.position? id with
  | none => simp [h]
  | some i => by_cases hsize : doc.size ≤ 1 <;> simp [h, hsize, withLines]

theorem removeIfEmpty_eq :
    doc.removeIfEmpty id
      = match doc.position? id with
        | none => ⟨.error (.unknownLine id), doc⟩
        | some i =>
          if ((doc.lines[i]?).map (·.text.isEmpty)).getD false = true ∧ 1 < doc.size then
            ⟨.ok true, doc.withLines (doc.lines.eraseIdx i)⟩
          else ⟨.ok false, doc⟩ := by
  unfold removeIfEmpty
  cases h : doc.position? id with
  | none => simp [h]
  | some i =>
    have hmore : 1 < doc.size ↔ ¬ doc.size ≤ 1 := Nat.not_le.symm
    cases hempty : ((doc.lines[i]?).map (·.text.isEmpty)).getD false <;>
      by_cases hsize : doc.size ≤ 1 <;>
      simp [h, hempty, hsize, hmore, -not_le, withLines, Except.map]

/-- The document with one more file, before its functions are there. -/
def withFile (doc : Document) (path : String) : Document :=
  { doc with
    functionFiles := doc.functionFiles ++ [path]
    journal := doc.journal
      ++ [.detail Journal.loading ("loaded custom functions from " ++ path)] }

theorem loadFunctions_eq :
    doc.loadFunctions files path
      = match files.canonical path with
        | .error cause => ⟨.error (.file cause), doc⟩
        | .ok found =>
          match readFunctions files found with
          | .error cause => ⟨.error cause, doc⟩
          | .ok text =>
            if found ∈ doc.functionFiles then ⟨.ok found, doc⟩
            else
              match Engine.compile (joinScripts (doc.script.toList ++ [text])) with
              | .error cause => ⟨.error (.rejected (some found) cause), doc⟩
              | .ok program =>
                ⟨.ok found, (doc.withFile found).withScript
                  (joinScripts (doc.script.toList ++ [text])) program⟩ := by
  unfold loadFunctions
  cases hfound : files.canonical path with
  | error cause => simp [Except.mapError]
  | ok found =>
    cases htext : readFunctions files found with
    | error cause => simp [htext, Except.mapError]
    | ok text =>
      by_cases hloaded : found ∈ doc.functionFiles
      · simp [htext, hloaded, Except.mapError]
      · cases hcompiled : Engine.compile (joinScripts (doc.script.toList ++ [text])) <;>
          simp [htext, hloaded, hcompiled, Except.mapError, Except.map, withFile, withScript]

theorem reloadFunctions_eq :
    doc.reloadFunctions files
      = if doc.functionFiles = [] then ⟨.error .nothingLoaded, doc⟩
        else
          match readAll files doc.functionFiles with
          | .error cause => ⟨.error cause, doc⟩
          | .ok texts =>
            match Engine.compile (joinScripts texts) with
            | .error cause => ⟨.error (.rejected none cause), doc⟩
            | .ok program =>
              ⟨.ok doc.functionFiles.length, doc.withScript (joinScripts texts) program⟩ := by
  unfold reloadFunctions
  by_cases hnone : doc.functionFiles = []
  · simp [hnone]
  · cases htexts : readAll files doc.functionFiles with
    | error cause => simp [hnone, htexts]
    | ok texts =>
      cases hcompiled : Engine.compile (joinScripts texts) <;>
        simp [hnone, htexts, hcompiled, Except.mapError, Except.map, withScript, recalculate]

end

/-- A file is loaded only if it can be found and read. One that is loaded already changes nothing;
another one joins the script, which must then compile. -/
theorem loadFunctions_ok {doc doc' : Document} {files : FileTree} {path found : String}
    (h : doc.loadFunctions files path = ⟨.ok found, doc'⟩) :
    files.canonical path = .ok found ∧ ∃ text, readFunctions files found = .ok text
      ∧ ((found ∈ doc.functionFiles ∧ doc' = doc)
        ∨ (found ∉ doc.functionFiles ∧ ∃ program,
          Engine.compile (joinScripts (doc.script.toList ++ [text])) = .ok program
          ∧ doc' = (doc.withFile found).withScript
            (joinScripts (doc.script.toList ++ [text])) program)) := by
  rw [loadFunctions_eq] at h
  split at h
  · cases h
  · rename_i hfound
    split at h
    · cases h
    · rename_i text htext
      split at h
      · cases h
        exact ⟨hfound, text, htext, .inl ⟨‹_›, rfl⟩⟩
      · split at h <;> cases h
        exact ⟨hfound, text, htext, .inr ⟨‹_›, _, ‹_›, rfl⟩⟩

/-- All files are read again, and the script they make must compile. -/
theorem reloadFunctions_ok {doc doc' : Document} {files : FileTree} {count : Nat}
    (h : doc.reloadFunctions files = ⟨.ok count, doc'⟩) :
    doc.functionFiles ≠ [] ∧ count = doc.functionFiles.length ∧ ∃ texts program,
      readAll files doc.functionFiles = .ok texts
      ∧ Engine.compile (joinScripts texts) = .ok program
      ∧ doc' = doc.withScript (joinScripts texts) program := by
  rw [reloadFunctions_eq] at h
  split at h
  · cases h
  · rename_i hsome
    split at h
    · cases h
    · rename_i texts htexts
      split at h <;> cases h
      exact ⟨hsome, rfl, texts, _, htexts, ‹_›, rfl⟩

end

/-! ## §3 Numbering -/

/-- Lines have ids from one to a limit, each its own, and there is one at least. -/
structure Numbered (limit : Nat) (lines : List Line) : Prop where
  ne_nil : lines ≠ []
  pos : ∀ line ∈ lines, 0 < line.id
  le_limit : ∀ line ∈ lines, line.id ≤ limit
  nodup : (lines.map (·.id)).Nodup

theorem numbered_ids (texts : List String) :
    (Line.numbered texts).map (·.id) = List.range' 1 texts.length := by
  apply List.ext_getElem
  · simp [Line.numbered]
  · intro i _ _
    simp [Line.numbered]
    omega

/-- Lines made of texts are numbered from one, and of no text one line is made. -/
theorem numbered_linesOf (texts : List String) :
    Numbered (max 1 texts.length) (linesOf texts) := by
  have hlength : (if texts.isEmpty then [""] else texts).length = max 1 texts.length := by
    cases texts with
    | nil => rfl
    | cons text rest => simp
  have hids : (linesOf texts).map (·.id) = List.range' 1 (max 1 texts.length) := by
    rw [linesOf, numbered_ids, hlength]
  have hbounds : ∀ line ∈ linesOf texts, 1 ≤ line.id ∧ line.id < 1 + max 1 texts.length := by
    intro line hline
    have hmem := List.mem_map_of_mem (f := (·.id)) hline
    rwa [hids, List.mem_range'_1] at hmem
  refine ⟨fun hnil => ?_, fun line hline => (hbounds line hline).1, fun line hline => ?_, ?_⟩
  · have hcount := congrArg List.length hids
    rw [hnil, List.map_nil, List.length_nil, List.length_range'] at hcount
    omega
  · have := (hbounds line hline).2
    omega
  · rw [hids]
    exact List.nodup_range'

theorem le_foldl_max (ids : List Nat) (start : Nat) : start ≤ ids.foldl max start := by
  induction ids generalizing start with
  | nil => exact Nat.le_refl _
  | cons id rest ih => exact Nat.le_trans (Nat.le_max_left _ _) (ih _)

theorem le_foldl_max_of_mem {ids : List Nat} {id : Nat} (h : id ∈ ids) (start : Nat) :
    id ≤ ids.foldl max start := by
  induction ids generalizing start with
  | nil => cases h
  | cons first rest ih =>
    rcases List.mem_cons.mp h with rfl | h
    · exact Nat.le_trans (Nat.le_max_right _ _) (le_foldl_max rest _)
    · exact ih h _

theorem foldl_max_le {ids : List Nat} {start limit : Nat} (hstart : start ≤ limit)
    (h : ∀ id ∈ ids, id ≤ limit) : ids.foldl max start ≤ limit := by
  induction ids generalizing start with
  | nil => exact hstart
  | cons first rest ih =>
    exact ih (Nat.max_le.mpr ⟨hstart, h first (by simp)⟩) fun id hid => h id (by simp [hid])

namespace Numbered

variable {limit : Nat} {lines lines' : List Line}

/-- Numbering is about the ids alone. -/
theorem of_ids_eq (h : Numbered limit lines) (hids : lines'.map (·.id) = lines.map (·.id)) :
    Numbered limit lines' := by
  have hmem : ∀ line ∈ lines', ∃ line₀ ∈ lines, line₀.id = line.id := by
    intro line hline
    exact List.mem_map.mp (hids ▸ List.mem_map_of_mem hline)
  refine ⟨?_, ?_, ?_, hids ▸ h.nodup⟩
  · rintro rfl
    exact h.ne_nil (List.map_eq_nil_iff.mp hids.symm)
  · intro line hline
    obtain ⟨line₀, hline₀, heq⟩ := hmem line hline
    exact heq ▸ h.pos line₀ hline₀
  · intro line hline
    obtain ⟨line₀, hline₀, heq⟩ := hmem line hline
    exact heq ▸ h.le_limit line₀ hline₀

/-- Fewer lines, as long as one is left, stay numbered. -/
theorem of_sublist (h : Numbered limit lines) (hsub : lines'.Sublist lines) (hne : lines' ≠ []) :
    Numbered limit lines' :=
  ⟨hne, fun line hline => h.pos line (hsub.subset hline),
    fun line hline => h.le_limit line (hsub.subset hline), h.nodup.sublist (hsub.map _)⟩

end Numbered

variable [Engine]

/-- A new id is greater than the ids there are. -/
theorem id_lt_nextId {doc : Document} {line : Line} (h : line ∈ doc.lines) :
    line.id < doc.nextId :=
  Nat.lt_succ_of_le (le_foldl_max_of_mem (List.mem_map_of_mem h) 0)

theorem nextId_le {doc : Document} {limit : Nat} (h : Numbered limit doc.lines) :
    doc.nextId ≤ limit + 1 := by
  refine Nat.succ_le_succ (foldl_max_le (Nat.zero_le _) fun id hid => ?_)
  obtain ⟨line, hline, rfl⟩ := List.mem_map.mp hid
  exact h.le_limit line hline

/-- A line with a new id may stand anywhere among the others. -/
theorem Numbered.of_insertion {limit : Nat} {lines' : List Line} {doc : Document}
    (h : Numbered limit doc.lines) (text : String)
    (hperm : lines'.Perm (⟨doc.nextId, text⟩ :: doc.lines)) : Numbered (limit + 1) lines' := by
  refine ⟨?_, fun line hline => ?_, fun line hline => ?_, ?_⟩
  · rintro rfl
    exact List.cons_ne_nil _ _ hperm.symm.eq_nil
  · rcases List.mem_cons.mp (hperm.subset hline) with rfl | hold
    · exact Nat.succ_pos _
    · exact h.pos line hold
  · rcases List.mem_cons.mp (hperm.subset hline) with rfl | hold
    · exact nextId_le h
    · exact Nat.le_succ_of_le (h.le_limit line hold)
  · rw [(hperm.map _).nodup_iff, List.map_cons, List.nodup_cons]
    refine ⟨fun hmem => ?_, h.nodup⟩
    obtain ⟨line, hline, heq⟩ := List.mem_map.mp hmem
    exact Nat.ne_of_lt (id_lt_nextId hline) heq

/-! ## §4 Steps -/

/-- The program of an optional script; without a script there are no functions. -/
def compiled : Option String → Except CompileError Engine.Program
  | none => .ok Engine.empty
  | some script => Engine.compile script

/-- How the parts of a document belong together, its ids being at most `limit`. -/
structure WellFormed (limit : Nat) (doc : Document) : Prop where
  numbered : Numbered limit doc.lines
  results_eq : doc.results = SumSheet.recalculate doc.evaluator doc.lines
  compiled_eq : compiled doc.script = .ok doc.program
  script_none_iff : doc.script = none ↔ doc.functionFiles = []
  files_nodup : doc.functionFiles.Nodup

namespace WellFormed

variable {limit limit' : Nat} {doc : Document}

theorem opening (o : Opening) : o.document.WellFormed (o.origin.built + o.origin.inserted) := by
  have hnone : (none : Option String) = none ↔ ([] : List String) = [] := iff_of_true rfl rfl
  cases o with
  | blank => exact ⟨numbered_linesOf [""], rfl, rfl, hnone, List.nodup_nil⟩
  | ofTexts texts => exact ⟨numbered_linesOf texts, rfl, rfl, hnone, List.nodup_nil⟩

theorem withLines (h : doc.WellFormed limit) {lines : List Line} (hlines : Numbered limit' lines) :
    (doc.withLines lines).WellFormed limit' :=
  ⟨hlines, rfl, h.compiled_eq, h.script_none_iff, h.files_nodup⟩

theorem withScript {script : String} {program : Engine.Program} (hlines : Numbered limit doc.lines)
    (hcompiled : Engine.compile script = .ok program) (hfiles : doc.functionFiles ≠ [])
    (hnodup : doc.functionFiles.Nodup) : (doc.withScript script program).WellFormed limit :=
  ⟨hlines, rfl, hcompiled, iff_of_false nofun hfiles, hnodup⟩

theorem recalculate (h : doc.WellFormed limit) : doc.recalculate.WellFormed limit :=
  ⟨h.numbered, rfl, h.compiled_eq, h.script_none_iff, h.files_nodup⟩

theorem loadFunctions (h : doc.WellFormed limit) (files : FileTree) (path : String) :
    (doc.loadFunctions files path).document.WellFormed limit := by
  rw [loadFunctions_eq]
  split
  · exact h
  · rename_i found _
    split
    · exact h
    · split
      · exact h
      · rename_i hnew
        split
        · exact h
        · exact withScript h.numbered ‹_› (by simp [withFile])
            (h.files_nodup.append (List.nodup_singleton found) (by simpa using hnew))

theorem reloadFunctions (h : doc.WellFormed limit) (files : FileTree) :
    (doc.reloadFunctions files).document.WellFormed limit := by
  rw [reloadFunctions_eq]
  split
  · exact h
  · rename_i hfiles
    split
    · exact h
    · split
      · exact h
      · exact withScript h.numbered ‹_› hfiles h.files_nodup

theorem setText (h : doc.WellFormed limit) (id : Nat) (text : String) :
    (doc.setText id text).document.WellFormed limit := by
  rw [setText_eq]
  split
  · exact h
  · rename_i i _
    refine h.withLines (h.numbered.of_ids_eq ?_)
    apply List.ext_getElem?
    intro j
    by_cases hj : i = j <;> simp [hj, Function.comp_def]

/-- A line that is inserted has the only id that can be above the limit. -/
theorem insertAfter (h : doc.WellFormed limit) (id : Nat) (text : String) :
    (doc.insertAfter id text).document.WellFormed
      (match (doc.insertAfter id text).result with
        | .ok _ => limit + 1
        | .error _ => limit) := by
  rw [insertAfter_eq]
  cases hi : doc.position? id with
  | none => exact h
  | some i =>
    have hbound : i + 1 ≤ doc.lines.length := (List.findIdx?_eq_some_iff_getElem.mp hi).1
    exact h.withLines (.of_insertion h.numbered text (List.perm_insertIdx _ _ hbound))

theorem push (h : doc.WellFormed limit) (text : String) :
    (doc.push text).2.WellFormed (limit + 1) :=
  h.withLines (.of_insertion h.numbered text (List.perm_append_singleton _ _))

/-- Of more than one line, one may go. -/
theorem eraseIdx (h : doc.WellFormed limit) {i : Nat} (hsize : 1 < doc.size) :
    (doc.withLines (doc.lines.eraseIdx i)).WellFormed limit := by
  refine h.withLines (h.numbered.of_sublist (List.eraseIdx_sublist _ _) fun hnil => ?_)
  have hlength := @List.length_eraseIdx _ doc.lines i
  rw [hnil, List.length_nil] at hlength
  unfold size at hsize
  split at hlength <;> omega

theorem remove (h : doc.WellFormed limit) (id : Nat) :
    (doc.remove id).document.WellFormed limit := by
  rw [remove_eq]
  split
  · exact h
  · split
    · exact h
    · exact h.eraseIdx (by omega)

theorem removeIfEmpty (h : doc.WellFormed limit) (id : Nat) :
    (doc.removeIfEmpty id).document.WellFormed limit := by
  rw [removeIfEmpty_eq]
  split
  · exact h
  · split
    · rename_i hcase
      exact h.eraseIdx hcase.2
    · exact h

end WellFormed

/-- The greatest id that the lines of an origin can have. -/
def Origin.limit (o : Origin) : Nat :=
  o.built + o.inserted

/-- One operation keeps a document well-formed, whether it fails or not. -/
theorem wellFormed_after {doc : Document} {o : Origin} (h : doc.WellFormed o.limit) (e : Edit) :
    (doc.after e).WellFormed (o.after doc e).limit := by
  cases e with
  | setText id text => exact h.setText id text
  | insertAfter id text =>
    have hinsert := h.insertAfter id text
    simp only [Origin.after]
    split at hinsert <;> exact hinsert
  | push text => exact h.push text
  | remove id => exact h.remove id
  | removeIfEmpty id => exact h.removeIfEmpty id
  | replaceAll texts => exact h.withLines (numbered_linesOf texts)
  | recalculate => exact h.recalculate
  | loadFunctions files path => exact h.loadFunctions files path
  | reloadFunctions files => exact h.reloadFunctions files

/-! ## §5 Places -/

section

variable {limit : Nat} {doc : Document}

/-- No two lines have the same id, so the line at a position is the one that its id leads to. -/
theorem position?_of_getElem? (h : Numbered limit doc.lines) {i : Nat} {line : Line}
    (hline : doc.lines[i]? = some line) : doc.position? line.id = some i := by
  obtain ⟨hi, hget⟩ := List.getElem?_eq_some_iff.mp hline
  rw [position?, List.findIdx?_eq_some_iff_getElem]
  refine ⟨hi, by simp [hget], fun j hj => ?_⟩
  have hids := List.pairwise_iff_getElem.mp (List.pairwise_map.mp h.nodup) j i (hj.trans hi) hi hj
  simpa [hget] using hids

theorem setText_at (h : Numbered limit doc.lines) {i : Nat} {line : Line}
    (hline : doc.lines[i]? = some line) (text : String) :
    doc.setText line.id text
      = ⟨.ok (), doc.withLines (doc.lines.modify i fun line => { line with text })⟩ := by
  rw [setText_eq, position?_of_getElem? h hline]

theorem insertAfter_at (h : Numbered limit doc.lines) {i : Nat} {line : Line}
    (hline : doc.lines[i]? = some line) (text : String) :
    doc.insertAfter line.id text
      = ⟨.ok doc.nextId, doc.withLines (doc.lines.insertIdx (i + 1) ⟨doc.nextId, text⟩)⟩ := by
  rw [insertAfter_eq, position?_of_getElem? h hline]

theorem remove_at (h : Numbered limit doc.lines) {i : Nat} {line : Line}
    (hline : doc.lines[i]? = some line) :
    doc.remove line.id
      = if doc.size ≤ 1 then ⟨.error .lastLine, doc⟩
        else ⟨.ok (), doc.withLines (doc.lines.eraseIdx i)⟩ := by
  rw [remove_eq, position?_of_getElem? h hline]

theorem removeIfEmpty_at (h : Numbered limit doc.lines) {i : Nat} {line : Line}
    (hline : doc.lines[i]? = some line) :
    doc.removeIfEmpty line.id
      = if line.text.isEmpty = true ∧ 1 < doc.size then
          ⟨.ok true, doc.withLines (doc.lines.eraseIdx i)⟩
        else ⟨.ok false, doc⟩ := by
  rw [removeIfEmpty_eq, position?_of_getElem? h hline]
  simp only [hline, Option.map_some, Option.getD_some]

end

/-! ## §6 Results -/

/-- Where results carry the ids of the lines, the result with an id stands where its line does. -/
theorem result?_eq {doc : Document} (h : doc.results.map (·.id) = doc.lines.map (·.id)) (id : Nat) :
    doc.result? id = (doc.position? id).bind (doc.results[·]?) := by
  have hposition : doc.position? id = doc.results.findIdx? (·.id == id) := by
    have hids := congrArg (List.findIdx? (· == id)) h
    rw [List.findIdx?_map, List.findIdx?_map] at hids
    exact hids.symm
  rw [hposition, result?, List.find?_eq_bind_findIdx?_getElem?]

/-! ## §7 Runs again -/

/-- A run keeps a document well-formed, whatever it begins with. -/
theorem wellFormed_foldl {doc : Document} {o : Origin} (h : doc.WellFormed o.limit)
    (edits : List Edit) : (doc.run edits).WellFormed (o.run doc edits).limit := by
  induction edits generalizing doc o with
  | nil => exact h
  | cons e rest ih => exact ih (wellFormed_after h e)

/-- **Every document that can be reached is well-formed.** Its results are those of its lines with
its functions, in their order and under their ids; its functions are those of its script; and no id
is greater than the number of texts the lines were last made of and of lines inserted since. -/
theorem wellFormed_run (opening : Opening) (edits : List Edit) :
    let doc := opening.document.run edits
    let origin := opening.origin.run opening.document edits
    doc.WellFormed (origin.built + origin.inserted)
      ∧ doc.results.length = doc.lines.length
      ∧ doc.results.map (·.id) = doc.lines.map (·.id)
      ∧ ∀ id, doc.result? id = (doc.position? id).bind (doc.results[·]?) := by
  have hdoc := wellFormed_foldl (o := opening.origin) (WellFormed.opening opening) edits
  have hids := recalculate_ids (opening.document.run edits).evaluator
    (opening.document.run edits).lines
  rw [← hdoc.results_eq] at hids
  exact ⟨hdoc, by simpa using congrArg List.length hids, hids, result?_eq hids⟩

end Document

end SumSheet
