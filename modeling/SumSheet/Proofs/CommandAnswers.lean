/-
SumSheet.Proofs.CommandAnswers — what is answered to one line of typing.

`Response` lists the answers. A line that is a command is carried out on
the line of the sheet at its position (`Performs`), or it shows
something and leaves the document alone; a line that cannot be carried
out is refused with a reason (`Refused`) and leaves everything but the
journal alone. `respond_eq_some_iff` says that these are the answers
there are, and `respond_eq_none_iff` that only one command has none: the
one that ends the session.

A command names a line by its position, and the document knows it by its
id. The translation is sound because no two lines have the same id
(`position?_of_getElem?`), so what is said here of commands is said of
positions alone.

  §1 Numbers   — what is accepted as the number of a line.
  §2 Reading   — what is not a command, and why.
  §3 Last      — the result of the last line.
  §4 Commands  — what they do, and when they cannot be carried out.
  §5 Answers   — one line of typing.
-/
import SumSheet.Interactive
import SumSheet.Proofs.FailedEdits

namespace SumSheet.Interactive

open Text Document

/-! ## §1 Numbers -/

/-- The text spells the number: decimal digits, with a plus in front of them or not. -/
def SpellsNumber (text : List Char) (n : Nat) : Prop :=
  ∃ digits, (text = digits ∨ text = '+' :: digits) ∧ digits ≠ []
    ∧ (∀ d ∈ digits, isAsciiDigit d = true) ∧ n = Number.ofDigits digits

/-- Digits are read if there are any, and no other character among them. -/
theorem digits_eq_some_iff {digits : List Char} {n : Nat} :
    (if digits.isEmpty || !digits.all isAsciiDigit then none
      else
        let n := Number.ofDigits digits
        if n ≤ greatestLineNumber then some n else none) = some n
      ↔ digits ≠ [] ∧ (∀ d ∈ digits, isAsciiDigit d = true) ∧ n = Number.ofDigits digits
        ∧ n ≤ greatestLineNumber := by
  simp only [Option.ite_none_left_eq_some, Option.ite_none_right_eq_some, Bool.or_eq_true,
    List.isEmpty_iff, Bool.not_eq_true', List.all_eq_false, not_or, not_exists, Option.some.injEq]
  constructor
  · rintro ⟨⟨hne, hdigits⟩, hle, rfl⟩
    exact ⟨hne, fun d hd => by simpa [hd] using hdigits d, rfl, hle⟩
  · rintro ⟨hne, hdigits, rfl, hle⟩
    exact ⟨⟨hne, fun d hd => hd.2 (hdigits d hd.1)⟩, hle, rfl⟩

theorem number?_eq_some_iff {text : List Char} {n : Nat} :
    number? text = some n ↔ SpellsNumber text n ∧ n ≤ greatestLineNumber := by
  unfold number? SpellsNumber
  rw [digits_eq_some_iff]
  constructor
  · rintro ⟨hne, hdigits, hn, hle⟩
    refine ⟨⟨_, ?_, hne, hdigits, hn⟩, hle⟩
    split
    · exact .inr rfl
    · exact .inl rfl
  · rintro ⟨⟨digits, htext, hne, hdigits, hn⟩, hle⟩
    rcases htext with rfl | rfl
    · split
      · exact absurd (hdigits '+' (by simp)) (by decide)
      · exact ⟨hne, hdigits, hn, hle⟩
    · exact ⟨hne, hdigits, hn, hle⟩

/-- The word is the number of a line: the line number that it spells, from one to the greatest. -/
def IsLineNumber (word : List Char) (n : Nat) : Prop :=
  SpellsNumber word n ∧ 0 < n ∧ n ≤ greatestLineNumber

theorem isLineNumber_iff {word : List Char} {n : Nat} :
    IsLineNumber word n ↔ number? word = some n ∧ 0 < n := by
  rw [IsLineNumber, number?_eq_some_iff]
  tauto

theorem number?_nil : number? [] = none := rfl

theorem lineNumber_eq_ok_iff {command : String} {args : List Char} {n : Nat} :
    lineNumber command args = .ok n ↔ IsLineNumber (splitWord args).1 n := by
  rw [isLineNumber_iff, lineNumber]
  by_cases hargs : args = []
  · simp [hargs, splitWord, number?_nil]
  · simp only [List.isEmpty_iff, hargs, if_false]
    split
    · rename_i m hnumber
      simp only [hnumber, Except.ok.injEq, Option.some.injEq]
      omega
    · rename_i hother
      refine iff_of_false nofun ?_
      rintro ⟨hnumber, hpos⟩
      obtain ⟨m, rfl⟩ := Nat.exists_eq_succ_of_ne_zero (Nat.ne_of_gt hpos)
      exact hother m hnumber

/-- A command that goes by a line number has one. -/
theorem exists_of_lineNumber_bind {full : String} {args : List Char} {f : Nat → Command}
    {c : Command} (h : (lineNumber full args >>= fun n => pure (f n)) = .ok c) :
    ∃ n, IsLineNumber (splitWord args).1 n ∧ f n = c := by
  cases hn : lineNumber full args with
  | error cause => simp [hn, bind, Except.bind] at h
  | ok n =>
    have hc : f n = c := by simpa [hn, bind, Except.bind, pure, Except.pure] using h
    exact ⟨n, lineNumber_eq_ok_iff.mp hn, hc⟩

theorem lineNumber_eq_error_iff {command : String} {args : List Char} {cause : CommandError} :
    lineNumber command args = .error cause
      ↔ (args = [] ∧ cause = .missingLineNumber command)
        ∨ (args ≠ [] ∧ (∀ n, ¬ IsLineNumber (splitWord args).1 n)
          ∧ cause = .invalidLineNumber (String.ofList (splitWord args).1)) := by
  simp only [isLineNumber_iff]
  rw [lineNumber]
  by_cases hargs : args = []
  · simp [hargs, eq_comm]
  · simp only [List.isEmpty_iff, hargs, if_false, false_and, false_or, ne_eq, not_false_eq_true,
      true_and]
    split
    · rename_i m hnumber
      refine iff_of_false nofun fun h => h.1 (m + 1) ⟨hnumber, by omega⟩
    · rename_i hother
      constructor
      · rintro ⟨⟩
        refine ⟨fun n h => ?_, rfl⟩
        obtain ⟨m, rfl⟩ := Nat.exists_eq_succ_of_ne_zero (Nat.ne_of_gt h.2)
        exact hother m h.1
      · rintro ⟨_, rfl⟩
        rfl

/-! ## §2 Reading -/

/-- What is typed is a command with this name and these arguments. -/
def Spells (typed name : String) (args : List Char) : Prop :=
  ∃ rest, trimStart typed.toList = ':' :: rest ∧ splitWord (trim rest) = (name.toList, args)

/-- The full name of a command that goes by a line number. -/
def numbered? : String → Option String
  | "e" | "edit" => some "edit"
  | "i" | "insert" => some "insert"
  | "d" | "delete" => some "delete"
  | _ => none

/-- The names of all commands, short and long. -/
def commandNames : List String :=
  ["l", "list", "e", "edit", "i", "insert", "d", "delete", "clear", "f", "functions", "reload", "h",
    "help", "q", "quit"]

/-- Why what is typed is no command. -/
inductive Malformed (typed : String) : CommandError → Prop
  | unknown {name : String} {args : List Char} (h : Spells typed name args)
      (hname : name ∉ commandNames) : Malformed typed (.unknown name)
  | missingLineNumber {name full : String} (h : Spells typed name [])
      (hname : numbered? name = some full) : Malformed typed (.missingLineNumber full)
  | invalidLineNumber {name full : String} {args : List Char} (h : Spells typed name args)
      (hname : numbered? name = some full) (hargs : args ≠ [])
      (hnumber : ∀ n, ¬ IsLineNumber (splitWord args).1 n) :
      Malformed typed (.invalidLineNumber (String.ofList (splitWord args).1))
  | missingPath {name : String} (h : Spells typed name [])
      (hname : name = "f" ∨ name = "functions") : Malformed typed .missingPath

theorem parse_of_spells {typed name : String} {args : List Char} (h : Spells typed name args) :
    parse typed = command name args := by
  obtain ⟨rest, hrest, hsplit⟩ := h
  simp only [parse, hrest, hsplit, String.ofList_toList]

/-- What does not begin with a colon is a line of the sheet. -/
theorem parse_of_plain {typed : String} (h : (trimStart typed.toList).head? ≠ some ':') :
    parse typed = .ok (.append typed) := by
  unfold parse
  split
  · rename_i rest htyped
    exact absurd (by rw [htyped]; rfl) h
  · rfl

/-- What does is a command. -/
theorem spells_or_plain (typed : String) :
    (∃ name args, Spells typed name args) ∨ (trimStart typed.toList).head? ≠ some ':' := by
  cases htyped : trimStart typed.toList with
  | nil => exact .inr nofun
  | cons c rest =>
    by_cases hcolon : c = ':'
    · subst hcolon
      exact .inl ⟨String.ofList (splitWord (trim rest)).1, (splitWord (trim rest)).2, rest, htyped,
        by rw [String.toList_ofList]⟩
    · exact .inr (by simpa using hcolon)

theorem command_eq_error_iff {name : String} {args : List Char} {cause : CommandError} :
    command name args = .error cause
      ↔ (name ∉ commandNames ∧ cause = .unknown name)
        ∨ (∃ full, numbered? name = some full ∧ lineNumber full args = .error cause)
        ∨ ((name = "f" ∨ name = "functions") ∧ args = [] ∧ cause = .missingPath) := by
  unfold command
  simp only [bind, Except.bind, pure, Except.pure]
  split
  -- the names that go by a line number
  case h_3 | h_4 | h_5 | h_6 | h_7 | h_8 =>
    cases hnumber : lineNumber _ args <;> simp [commandNames, numbered?, hnumber]
  -- the names that go by a path
  case h_10 | h_11 =>
    cases args <;> simp [commandNames, numbered?, throw, throwThe, MonadExceptOf.throw, eq_comm]
  -- no name of a command
  case h_17 =>
    simp_all [commandNames, numbered?, throw, throwThe, MonadExceptOf.throw, eq_comm]
  -- the other names do not look at their arguments
  all_goals simp [commandNames, numbered?]

/-- What is typed is no command exactly for the reasons listed. -/
theorem parse_eq_error_iff {typed : String} {cause : CommandError} :
    parse typed = .error cause ↔ Malformed typed cause := by
  constructor
  · intro h
    rcases spells_or_plain typed with ⟨name, args, hspells⟩ | hplain
    · rw [parse_of_spells hspells, command_eq_error_iff] at h
      rcases h with ⟨hname, rfl⟩ | ⟨full, hname, h⟩ | ⟨hname, rfl, rfl⟩
      · exact .unknown hspells hname
      · rcases lineNumber_eq_error_iff.mp h with ⟨rfl, rfl⟩ | ⟨hargs, hnumber, rfl⟩
        · exact .missingLineNumber hspells hname
        · exact .invalidLineNumber hspells hname hargs hnumber
      · exact .missingPath hspells hname
    · rw [parse_of_plain hplain] at h
      cases h
  · intro h
    cases h with
    | unknown h hname =>
      rw [parse_of_spells h, command_eq_error_iff]
      exact .inl ⟨hname, rfl⟩
    | missingLineNumber h hname =>
      rw [parse_of_spells h, command_eq_error_iff]
      exact .inr (.inl ⟨_, hname, lineNumber_eq_error_iff.mpr (.inl ⟨rfl, rfl⟩)⟩)
    | invalidLineNumber h hname hargs hnumber =>
      rw [parse_of_spells h, command_eq_error_iff]
      exact .inr (.inl ⟨_, hname, lineNumber_eq_error_iff.mpr (.inr ⟨hargs, hnumber, rfl⟩)⟩)
    | missingPath h hname =>
      rw [parse_of_spells h, command_eq_error_iff]
      exact .inr (.inr ⟨hname, rfl, rfl⟩)

/-- The line number that a command goes by. -/
def Command.line? : Command → Option Nat
  | .edit n _ | .insert n _ | .delete n => some n
  | _ => none

/-- The line number of a command is never zero, nor greater than can be typed. -/
theorem line_bounds_of_parse {typed : String} {c : Command} {n : Nat} (h : parse typed = .ok c)
    (hline : c.line? = some n) : 0 < n ∧ n ≤ greatestLineNumber := by
  rcases spells_or_plain typed with ⟨name, args, hspells⟩ | hplain
  · rw [parse_of_spells hspells] at h
    have hnumber {full : String} {f : Nat → Command} (hf : ∀ m, (f m).line? = some m)
        (h : (lineNumber full args >>= fun m => pure (f m)) = .ok c) :
        0 < n ∧ n ≤ greatestLineNumber := by
      obtain ⟨m, hm, hc⟩ := exists_of_lineNumber_bind h
      have hmn : m = n := by simpa [← hc, hf m] using hline
      exact hmn ▸ hm.2
    unfold command at h
    -- the same four kinds of names as before
    split at h
    case h_3 | h_4 | h_5 | h_6 | h_7 | h_8 => exact hnumber (fun _ => rfl) h
    case h_10 | h_11 =>
      split at h
      · cases h
      · cases h
        cases hline
    case h_17 => cases h
    all_goals
      cases h
      cases hline
  · rw [parse_of_plain hplain] at h
    cases h
    cases hline

variable [Engine]

/-! ## §3 Last -/

section

variable {limit : Nat} {doc : Document}

/-- The result of the last line is the last result. -/
theorem resultText_last (h : doc.WellFormed limit) (line : Line)
    (hlast : doc.lines.getLast? = some line) :
    resultText doc line.id = (doc.resultTexts.getLast?).getD "" := by
  have hids : doc.results.map (·.id) = doc.lines.map (·.id) := by
    rw [h.results_eq]
    exact recalculate_ids _ _
  have hlength : doc.results.length = doc.lines.length := by simpa using congrArg List.length hids
  rw [List.getLast?_eq_getElem?] at hlast
  rw [resultText, result?_eq hids, position?_of_getElem? h.numbered hlast, Option.bind_some,
    ← hlength, ← List.getLast?_eq_getElem?, resultTexts, List.getLast?_map]

end

/-! ## §4 Commands -/

/-- What a command makes of a document. Positions count from zero, line numbers from one. -/
inductive Performs (files : FileTree) (doc : Document) : Command → Document → Prop
  /-- A single empty line is filled. -/
  | fill {id : Nat} {text : String} (honly : doc.lines = [⟨id, ""⟩]) :
      Performs files doc (.append text) (doc.withLines [⟨id, text⟩])
  | push {text : String} (hother : ∀ id, doc.lines ≠ [⟨id, ""⟩]) :
      Performs files doc (.append text) (doc.withLines (doc.lines ++ [⟨doc.nextId, text⟩]))
  | edit {i : Nat} {text : String} (hi : i < doc.lines.length) :
      Performs files doc (.edit (i + 1) text)
        (doc.withLines (doc.lines.modify i fun line => { line with text }))
  | insert {i : Nat} {text : String} (hi : i < doc.lines.length) :
      Performs files doc (.insert (i + 1) text)
        (doc.withLines (doc.lines.insertIdx (i + 1) ⟨doc.nextId, text⟩))
  | delete {i : Nat} (hi : i < doc.lines.length) (hmore : 1 < doc.lines.length) :
      Performs files doc (.delete (i + 1)) (doc.withLines (doc.lines.eraseIdx i))
  | clear : Performs files doc .clear (doc.withLines [⟨1, ""⟩])
  | functions {path found : String} {doc' : Document}
      (hload : doc.loadFunctions files path = ⟨.ok found, doc'⟩) :
      Performs files doc (.functions path) doc'
  | reload {count : Nat} {doc' : Document}
      (hreload : doc.reloadFunctions files = ⟨.ok count, doc'⟩) :
      Performs files doc .reload doc'
  | list : Performs files doc .list doc
  | help : Performs files doc .help doc

/-- When a command cannot be carried out. -/
inductive Fails (files : FileTree) (doc : Document) : Command → Error → Prop
  | noLine {c : Command} {n : Nat} (hc : c.line? = some n) (hn : doc.size < n) :
      Fails files doc c (.noLine n doc.size)
  | lastLine (honly : doc.size = 1) : Fails files doc (.delete 1) (.document .lastLine)
  | functions {path : String} {cause : Document.Error}
      (hload : doc.Refuses (.loadFunctions files path) cause) :
      Fails files doc (.functions path) (.document cause)
  | reload {cause : Document.Error} (hreload : doc.Refuses (.reloadFunctions files) cause) :
      Fails files doc .reload (.document cause)

/-- What is printed when a command has left this document behind. -/
def answer (files : FileTree) (doc : Document) : Command → String
  | .append _ => (doc.resultTexts.getLast?).getD ""
  | .list | .edit _ _ | .insert _ _ | .delete _ => listing doc
  | .functions path => listing doc ++ "\nLoaded " ++ (files.canonical path).toOption.getD ""
  | .reload => "Reloaded " ++ toString doc.functionFiles.length ++ " functions file(s)"
  | .help => helpText
  | .clear | .quit => ""

section

variable {limit : Nat} {files : FileTree} {doc doc' : Document} {c : Command}

theorem setText_fill (h : doc.WellFormed limit) {id : Nat} {text : String}
    (honly : doc.lines = [⟨id, ""⟩]) :
    doc.setText id text = ⟨.ok (), doc.withLines [⟨id, text⟩]⟩ := by
  have hset := setText_at h.numbered (i := 0) (by rw [honly]; rfl) text
  rwa [honly] at hset

/-- A command does one of the operations on documents, or none. -/
theorem exists_edit_of_performs (h : doc.WellFormed limit) (hdone : Performs files doc c doc') :
    doc' = doc ∨ ∃ e, doc.edit e = ⟨.ok (), doc'⟩ := by
  cases hdone with
  | @fill id text honly => exact .inr ⟨.setText id text, setText_fill h honly⟩
  | push _ => exact .inr ⟨.push _, rfl⟩
  | @edit i text hi =>
    exact .inr ⟨.setText doc.lines[i].id text,
      setText_at h.numbered (List.getElem?_eq_getElem hi) text⟩
  | @insert i text hi =>
    refine .inr ⟨.insertAfter doc.lines[i].id text, ?_⟩
    rw [Document.edit, insertAfter_at h.numbered (List.getElem?_eq_getElem hi)]
    rfl
  | @delete i hi hmore =>
    refine .inr ⟨.remove doc.lines[i].id, ?_⟩
    rw [Document.edit, remove_at h.numbered (List.getElem?_eq_getElem hi)]
    exact if_neg (Nat.not_le.mpr hmore)
  | clear => exact .inr ⟨.replaceAll [], rfl⟩
  | @functions path _ _ hload =>
    refine .inr ⟨.loadFunctions files path, ?_⟩
    rw [Document.edit, hload]
    rfl
  | reload hreload =>
    refine .inr ⟨.reloadFunctions files, ?_⟩
    rw [Document.edit, hreload]
    rfl
  | list => exact .inl rfl
  | help => exact .inl rfl

theorem wellFormed_of_performs (h : doc.WellFormed limit) (hdone : Performs files doc c doc') :
    ∃ limit', doc'.WellFormed limit' := by
  rcases exists_edit_of_performs h hdone with rfl | ⟨e, hedit⟩
  · exact ⟨limit, h⟩
  · have hafter := wellFormed_after (o := ⟨limit, 0⟩) h e
    rw [after, hedit] at hafter
    exact ⟨_, hafter⟩

@[simp] theorem carryOut_of {α : Type} (op : Document → Answer Document.Error α) :
    doc.carryOut (Turn.of op) = ⟨(op doc).result.mapError .document, (op doc).document⟩ := rfl

theorem idAt_of_lt {i : Nat} (hi : i < doc.lines.length) :
    doc.carryOut (idAt (i + 1)) = ⟨.ok doc.lines[i].id, doc⟩ := by
  simp [idAt, hi]

theorem idAt_of_le {i : Nat} (hi : doc.lines.length ≤ i) :
    doc.carryOut (idAt (i + 1)) = ⟨.error (.noLine (i + 1) doc.size), doc⟩ := by
  simp [idAt, hi]

theorem append_of_fill {id : Nat} {text : String} (honly : doc.lines = [⟨id, ""⟩])
    (hset : doc.setText id text = ⟨.ok (), doc'⟩) :
    doc.carryOut (append text) = ⟨.ok id, doc'⟩ := by
  simp [append, honly, hset, Except.mapError, Except.map]

theorem append_of_push {text : String} (hother : ∀ id, doc.lines ≠ [⟨id, ""⟩]) :
    doc.carryOut (append text)
      = ⟨.ok doc.nextId, doc.withLines (doc.lines ++ [⟨doc.nextId, text⟩])⟩ := by
  unfold append
  simp only [carryOut_bind, carryOut_get]
  split
  · rename_i only honly
    rw [if_neg]
    · rfl
    · intro hempty
      refine hother only.id ?_
      rw [honly, ← String.isEmpty_iff.mp hempty]
  · rfl

/-- A command that can be carried out is, and its answer is printed. -/
theorem apply_of_performs (h : doc.WellFormed limit) (hdone : Performs files doc c doc') :
    doc.carryOut (apply files c) = ⟨.ok (some (answer files doc' c)), doc'⟩ := by
  cases hdone with
  | @fill id text honly =>
    have hset : doc.setText id text = ⟨.ok (), doc.withLines [⟨id, text⟩]⟩ := setText_fill h honly
    have hdoc := h.setText id text
    rw [hset] at hdoc
    have hlast := resultText_last hdoc ⟨id, text⟩ rfl
    simp [apply, append_of_fill honly hset, hlast, answer, Except.map]
  | @push text hother =>
    have hdoc : (doc.withLines (doc.lines ++ [⟨doc.nextId, text⟩])).WellFormed (limit + 1) :=
      h.push text
    have hlast := resultText_last hdoc ⟨doc.nextId, text⟩ List.getLast?_concat
    simp [apply, append_of_push hother, hlast, answer, Except.map]
  | @edit i text hi =>
    have hset := setText_at h.numbered (List.getElem?_eq_getElem hi) text
    simp [apply, idAt_of_lt hi, hset, answer, Except.map, Except.mapError]
  | @insert i text hi =>
    have hinsert := insertAfter_at h.numbered (List.getElem?_eq_getElem hi) text
    simp [apply, idAt_of_lt hi, hinsert, answer, Except.map, Except.mapError]
  | @delete i hi hmore =>
    have hremove := remove_at h.numbered (List.getElem?_eq_getElem hi)
    rw [if_neg (show ¬ doc.size ≤ 1 from Nat.not_le.mpr hmore)] at hremove
    simp [apply, idAt_of_lt hi, hremove, answer, Except.map, Except.mapError]
  | clear => rfl
  | functions hload =>
    have hfound := (loadFunctions_ok hload).1
    simp [apply, hload, answer, hfound, Except.map, Except.mapError, Except.toOption]
  | reload hreload =>
    obtain ⟨_, hcount, _, _, _, _, hdoc⟩ := reloadFunctions_ok hreload
    have hfiles : doc'.functionFiles = doc.functionFiles := by
      rw [hdoc]
      rfl
    simp [apply, hreload, answer, hcount, hfiles, Except.map, Except.mapError]
  | list => rfl
  | help => rfl

/-- One that cannot is refused, and the document behind it is the one before. -/
theorem apply_of_fails (h : doc.WellFormed limit) {e : Error} (hfails : Fails files doc c e)
    (hpos : ∀ n, c.line? = some n → 0 < n) : doc.carryOut (apply files c) = ⟨.error e, doc⟩ := by
  cases hfails with
  | @noLine c n hc hn =>
    obtain ⟨i, rfl⟩ := Nat.exists_eq_succ_of_ne_zero (Nat.ne_of_gt (hpos n hc))
    have hid : doc.carryOut (idAt (i + 1)) = ⟨.error (.noLine (i + 1) doc.size), doc⟩ :=
      idAt_of_le (Nat.le_of_lt_succ hn)
    cases c with
    | edit _ _ | insert _ _ | delete _ =>
      cases hc
      simp [apply, hid]
    | _ => cases hc
  | lastLine honly =>
    have hi : 0 < doc.lines.length := by unfold size at honly; omega
    have hremove := remove_at h.numbered (List.getElem?_eq_getElem hi)
    rw [if_pos (Nat.le_of_eq honly)] at hremove
    simp [apply, idAt_of_lt hi, hremove, Except.mapError]
  | @functions path _ hload =>
    have hdoc : (doc.loadFunctions files path).document = doc :=
      document_of_error (edit_eq_error_iff.mpr hload)
    simp [apply, loadFunctions_eq_error_iff.mpr hload, hdoc, Except.mapError]
  | reload hreload =>
    have hdoc : (doc.reloadFunctions files).document = doc :=
      document_of_error (edit_eq_error_iff.mpr hreload)
    simp [apply, reloadFunctions_eq_error_iff.mpr hreload, hdoc, Except.map, Except.mapError]

/-- A line can always be filled in or added. -/
theorem exists_performs_append (files : FileTree) (doc : Document) (text : String) :
    ∃ doc', Performs files doc (.append text) doc' := by
  by_cases hfill : ∃ id, doc.lines = [⟨id, ""⟩]
  · exact ⟨_, .fill hfill.choose_spec⟩
  · exact ⟨_, .push (not_exists.mp hfill)⟩

/-- There is no third case. -/
theorem performs_or_fails (hquit : c ≠ .quit) (hpos : ∀ n, c.line? = some n → 0 < n) :
    (∃ doc', Performs files doc c doc') ∨ ∃ e, Fails files doc c e := by
  have hline {n : Nat} (hc : c.line? = some n) :
      (∃ i, n = i + 1 ∧ i < doc.lines.length) ∨ ∃ e, Fails files doc c e := by
    obtain ⟨i, rfl⟩ := Nat.exists_eq_succ_of_ne_zero (Nat.ne_of_gt (hpos n hc))
    by_cases hi : i < doc.lines.length
    · exact .inl ⟨i, rfl, hi⟩
    · exact .inr ⟨_, .noLine hc (by unfold size; omega)⟩
  cases c with
  | append text => exact .inl (exists_performs_append files doc text)
  | edit n text =>
    rcases hline rfl with ⟨i, rfl, hi⟩ | hfails
    · exact .inl ⟨_, .edit hi⟩
    · exact .inr hfails
  | insert n text =>
    rcases hline rfl with ⟨i, rfl, hi⟩ | hfails
    · exact .inl ⟨_, .insert hi⟩
    · exact .inr hfails
  | delete n =>
    rcases hline rfl with ⟨i, rfl, hi⟩ | hfails
    · by_cases hmore : 1 < doc.lines.length
      · exact .inl ⟨_, .delete hi hmore⟩
      · obtain rfl : i = 0 := by omega
        exact .inr ⟨_, .lastLine (by unfold size; omega)⟩
    · exact .inr hfails
  | clear => exact .inl ⟨_, .clear⟩
  | functions path =>
    rcases hload : doc.loadFunctions files path with ⟨cause | found, doc'⟩
    · exact .inr ⟨_, .functions (loadFunctions_eq_error_iff.mp (congrArg Answer.result hload))⟩
    · exact .inl ⟨_, .functions hload⟩
  | reload =>
    rcases hreload : doc.reloadFunctions files with ⟨cause | count, doc'⟩
    · exact .inr ⟨_, .reload (reloadFunctions_eq_error_iff.mp (congrArg Answer.result hreload))⟩
    · exact .inl ⟨_, .reload hreload⟩
  | list => exact .inl ⟨_, .list⟩
  | help => exact .inl ⟨_, .help⟩
  | quit => exact absurd rfl hquit

end

/-! ## §5 Answers -/

/-- Why what is typed is not carried out. -/
inductive Refused (files : FileTree) (doc : Document) (typed : String) : Error → Prop
  | malformed {cause : CommandError} (h : Malformed typed cause) :
      Refused files doc typed (.command cause)
  | failed {c : Command} {e : Error} (hparse : parse typed = .ok c) (h : Fails files doc c e) :
      Refused files doc typed e

/-- The answers to what is typed: what is printed, and the document behind it. -/
inductive Response (files : FileTree) (doc : Document) (typed : String) : String → Document → Prop
  | done {c : Command} {doc' : Document} (hparse : parse typed = .ok c)
      (h : Performs files doc c doc') :
      Response files doc typed
        (if (answer files doc' c).isEmpty then "" else answer files doc' c ++ "\n") doc'
  | refused {e : Error} (h : Refused files doc typed e) :
      Response files doc typed ("Error: " ++ e.message ++ "\n")
        { doc with journal := doc.journal ++ e.entries }

section

variable {limit : Nat} {files : FileTree} {doc doc' : Document} {typed text : String}

theorem respond_of_malformed {cause : CommandError} (h : parse typed = .error cause) :
    respond files doc typed
      = some ("Error: " ++ cause.message ++ "\n", { doc with journal := doc.journal ++ [] }) := by
  simp only [respond, turn, h]
  rfl

theorem respond_of_parse {c : Command} (h : parse typed = .ok c) :
    respond files doc typed
      = match doc.carryOut (apply files c) with
        | ⟨.ok none, _⟩ => none
        | ⟨.ok (some text), doc⟩ => some (if text.isEmpty then "" else text ++ "\n", doc)
        | ⟨.error e, doc⟩ =>
          some ("Error: " ++ e.message ++ "\n",
            { doc with journal := doc.journal ++ e.entries }) := by
  simp only [respond, turn, h]
  rfl

/-- The answers listed are given. -/
theorem respond_of_response (h : doc.WellFormed limit)
    (hresponse : Response files doc typed text doc') :
    respond files doc typed = some (text, doc') := by
  cases hresponse with
  | done hparse hdone => rw [respond_of_parse hparse, apply_of_performs h hdone]
  | refused hrefused =>
    cases hrefused with
    | malformed hmalformed => exact respond_of_malformed (parse_eq_error_iff.mpr hmalformed)
    | failed hparse hfails =>
      rw [respond_of_parse hparse,
        apply_of_fails h hfails fun n hn => (line_bounds_of_parse hparse hn).1]

/-- One of them is, unless what is typed ends the session. -/
theorem exists_response (files : FileTree) (doc : Document) (hquit : parse typed ≠ .ok .quit) :
    ∃ text doc', Response files doc typed text doc' := by
  cases hparse : parse typed with
  | error cause => exact ⟨_, _, .refused (.malformed (parse_eq_error_iff.mp hparse))⟩
  | ok c =>
    have hc : c ≠ .quit := fun hc => hquit (hc ▸ hparse)
    rcases performs_or_fails hc fun n hn => (line_bounds_of_parse hparse hn).1 with
      ⟨doc', hdone⟩ | ⟨e, hfails⟩
    · exact ⟨_, _, .done hparse hdone⟩
    · exact ⟨_, _, .refused (.failed hparse hfails)⟩

theorem respond_eq_none_iff (h : doc.WellFormed limit) :
    respond files doc typed = none ↔ parse typed = .ok .quit := by
  constructor
  · intro hnone
    by_contra hquit
    obtain ⟨text, doc', hresponse⟩ := exists_response files doc hquit
    rw [respond_of_response h hresponse] at hnone
    cases hnone
  · intro hquit
    rw [respond_of_parse hquit]
    rfl

theorem respond_eq_some_iff (h : doc.WellFormed limit) :
    respond files doc typed = some (text, doc') ↔ Response files doc typed text doc' := by
  refine ⟨fun hsome => ?_, respond_of_response h⟩
  have hquit : parse typed ≠ .ok .quit := fun hquit => by
    rw [(respond_eq_none_iff h).mpr hquit] at hsome
    cases hsome
  obtain ⟨_, _, hresponse⟩ := exists_response files doc hquit
  cases (respond_of_response h hresponse).symm.trans hsome
  exact hresponse

theorem wellFormed_of_response (h : doc.WellFormed limit)
    (hresponse : Response files doc typed text doc') : ∃ limit', doc'.WellFormed limit' := by
  cases hresponse with
  | done _ hdone => exact wellFormed_of_performs h hdone
  | refused _ =>
    exact ⟨limit, h.numbered, h.results_eq, h.compiled_eq, h.script_none_iff, h.files_nodup⟩

end

end SumSheet.Interactive
