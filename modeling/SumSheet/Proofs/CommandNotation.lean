/-
SumSheet.Proofs.CommandNotation — how the commands of a session are
written, and that they are read as they are written.

What is typed is a line of the sheet, or a colon with a command behind it
(`Typed`). A command is a name with its arguments, one piece behind the
other, with blanks between them (`Written`); the text of a line and the
path of a file go on to the end, whatever they hold. Blanks around all of
this, of any kind and number, do not count.

A command is read by trimming what stands behind the colon and by taking
words off its front, two times at most. The two steps do not know of each
other: trimming may end inside the blanks behind a word, if nothing else
follows. `splitWord_trim` says that this does no harm, and it is all that
is needed of them from there on.

  §1 Parts   — a word, and what follows it.
  §2 Forms   — how commands are written.
  §3 Numbers — their usual spelling.
  §4 Reading — the theorem.
-/
import SumSheet.Proofs.CommandAnswers

namespace SumSheet.Interactive

open Text

/-! ## §1 Parts -/

/-- A text is a word and what follows it, with blanks between them. These may be missing if nothing
follows. -/
def Parts (text word rest : List Char) : Prop :=
  ∃ gap, AreBlank gap ∧ text = word ++ (gap ++ rest) ∧ (gap = [] → rest = [])

section

variable {text word rest : List Char}

theorem splitWord_of_parts (h : Parts text word rest) (hword : ∀ c ∈ word, isBlank c = false)
    (hrest : ∀ c ∈ rest.head?, isBlank c = false) : splitWord text = (word, rest) := by
  obtain ⟨gap, hgap, rfl, hnone⟩ := h
  have hvisible : ∀ c ∈ word, (!isBlank c) = true := fun c hc => by simp [hword c hc]
  have hstop : ∀ c ∈ (gap ++ rest).head?, (!isBlank c) = false := by
    cases gap with
    | nil => simp [hnone rfl]
    | cons c gap => simpa using hgap c List.mem_cons_self
  rw [splitWord, takeWhile_run hvisible hstop, dropWhile_run hvisible hstop,
    trimStart_eq_iff.mpr ⟨gap, hgap, rfl, hrest⟩]

theorem parts_splitWord (text : List Char) : Parts text (splitWord text).1 (splitWord text).2 := by
  obtain ⟨gap, hgap, hrest, hhead⟩ :=
    trimStart_eq_iff.mp (rfl : trimStart (text.dropWhile (!isBlank ·)) = _)
  refine ⟨gap, hgap, ?_, fun hnil => ?_⟩
  · rw [splitWord, ← hrest, List.takeWhile_append_dropWhile]
  · -- what follows a word begins with a blank, and behind the blanks there is none
    have hblank : ∀ c ∈ (text.dropWhile (!isBlank ·)).head?, (!isBlank c) = false := head_dropWhile
    rw [hrest, hnil, List.nil_append] at hblank
    rw [splitWord]
    cases hstart : trimStart (text.dropWhile (!isBlank ·)) with
    | nil => rfl
    | cons c cs =>
      rw [hstart] at hblank hhead
      have hc : isBlank c = true := by simpa using hblank c rfl
      rw [hhead c rfl] at hc
      cases hc

/-- A word is cut off whether or not the text is trimmed before. -/
theorem splitWord_trim (h : Parts text word rest) (hne : word ≠ [])
    (hword : ∀ c ∈ word, isBlank c = false) : splitWord (trim text) = (word, trim rest) := by
  obtain ⟨gap, hgap, rfl, hnone⟩ := h
  obtain ⟨front, back, hfront, hback, hrest, htrimmed⟩ := exists_trim rest
  have hhead : ∀ c ∈ word.head?, isBlank c = false := fun c hc => hword c (List.mem_of_mem_head? hc)
  have hlast : ∀ c ∈ word.getLast?, isBlank c = false :=
    fun c hc => hword c (List.mem_of_getLast? hc)
  by_cases hnil : trim rest = []
  · have hblank : AreBlank (gap ++ rest) := by
      rw [hrest, hnil]
      simpa [areBlank_append] using ⟨hgap, hfront, hback⟩
    have htrim : trim (word ++ (gap ++ rest)) = word :=
      trim_eq_iff.mpr ⟨[], gap ++ rest, areBlank_nil, hblank, by simp, hhead, hlast⟩
    rw [htrim, hnil]
    exact splitWord_of_parts ⟨[], areBlank_nil, by simp, fun _ => rfl⟩ hword (by simp)
  · have htrim : trim (word ++ (gap ++ rest)) = word ++ (gap ++ front ++ trim rest) := by
      refine trim_eq_iff.mpr ⟨[], back, areBlank_nil, hback, ?_, ?_, ?_⟩
      · conv_lhs => rw [hrest]
        simp
      · rw [List.head?_append_of_ne_nil _ hne]
        exact hhead
      · rw [← List.append_assoc, List.getLast?_append_of_ne_nil _ hnil]
        exact htrimmed.2
    rw [htrim]
    refine splitWord_of_parts ⟨gap ++ front, areBlank_append.mpr ⟨hgap, hfront⟩, rfl, ?_⟩ hword
      htrimmed.1
    intro hgaps
    rw [hnone (List.append_eq_nil_iff.mp hgaps).1]
    rfl

end

/-! ## §2 Forms -/

/-- The commands that take no arguments, by their names. What stands behind a name is not looked
at. -/
def bareCommands : List (String × Command) :=
  [("l", .list), ("list", .list), ("clear", .clear), ("reload", .reload), ("h", .help),
    ("help", .help), ("q", .quit), ("quit", .quit)]

/-- How a command is written behind its colon. -/
inductive Written : Command → List Char → Prop
  | edit {name : String} {body args word text : List Char} {n : Nat}
      (hname : name ∈ ["e", "edit"]) (hbody : Parts body name.toList args)
      (hargs : Parts args word text) (hword : IsLineNumber word n) (htext : IsTrimmed text) :
      Written (.edit n (String.ofList text)) body
  | insert {name : String} {body args word text : List Char} {n : Nat}
      (hname : name ∈ ["i", "insert"]) (hbody : Parts body name.toList args)
      (hargs : Parts args word text) (hword : IsLineNumber word n) (htext : IsTrimmed text) :
      Written (.insert n (String.ofList text)) body
  /-- What follows the number is not looked at. -/
  | delete {name : String} {body args word rest : List Char} {n : Nat}
      (hname : name ∈ ["d", "delete"]) (hbody : Parts body name.toList args)
      (hargs : Parts args word rest) (hword : IsLineNumber word n) : Written (.delete n) body
  | functions {name : String} {body path : List Char} (hname : name ∈ ["f", "functions"])
      (hbody : Parts body name.toList path) (hsome : path ≠ []) (htrimmed : IsTrimmed path) :
      Written (.functions (String.ofList path)) body
  | bare {name : String} {c : Command} {body rest : List Char} (hname : (name, c) ∈ bareCommands)
      (hbody : Parts body name.toList rest) : Written c body

/-- What can be typed: a line, which does not begin with a colon, or a colon and a command. -/
inductive Typed : Command → String → Prop
  | line {text : String} (hplain : text.toList.find? (!isBlank ·) ≠ some ':') :
      Typed (.append text) text
  | command {c : Command} {typed : String} {before inner body after : List Char}
      (hbefore : AreBlank before) (hinner : AreBlank inner) (hafter : AreBlank after)
      (htyped : typed.toList = before ++ ':' :: (inner ++ (body ++ after)))
      (hbody : Written c body) : Typed c typed

/-! ## §3 Numbers -/

theorem isAsciiDigit_of_isDigit {c : Char} (h : c.isDigit = true) : isAsciiDigit c = true := by
  simpa [Char.isDigit, isAsciiDigit, Char.le_def] using h

/-- In its usual spelling every number that can be typed is the number of a line, and no other. -/
theorem isLineNumber_toString (n : Nat) :
    IsLineNumber (toString n).toList n ↔ 0 < n ∧ n ≤ greatestLineNumber := by
  have hdigits : (toString n).toList = Nat.toDigits 10 n := by
    rw [Nat.toString_eq_ofList_toDigits, String.toList_ofList]
  have hspells : SpellsNumber (toString n).toList n := by
    refine ⟨_, .inl rfl, ?_, ?_, ?_⟩
    · rw [hdigits]
      exact Nat.toDigits_ne_nil
    · rw [hdigits]
      exact fun d hd =>
        isAsciiDigit_of_isDigit (Nat.isDigit_of_mem_toDigits (by decide) (by decide) hd)
    · rw [hdigits]
      exact (Nat.ofDigitChars_ten_toDigits (n := n)).symm
  exact ⟨fun h => h.2, fun h => ⟨hspells, h⟩⟩

/-- The number of a line is a word. -/
theorem IsLineNumber.isWord {word : List Char} {n : Nat} (h : IsLineNumber word n) :
    word ≠ [] ∧ ∀ c ∈ word, isBlank c = false := by
  obtain ⟨⟨digits, hword, hne, hdigits, -⟩, -⟩ := h
  have hvisible : ∀ c ∈ digits, isBlank c = false := fun c hc =>
    isBlank_of_isNamePart (by simp [isNamePart, hdigits c hc])
  obtain rfl | rfl := hword
  · exact ⟨hne, hvisible⟩
  · exact ⟨List.cons_ne_nil _ _, List.forall_mem_cons.mpr ⟨rfl, hvisible⟩⟩

/-! ## §4 Reading -/

section

variable {name : String} {c : Command} {body args word text : List Char} {n : Nat} {typed : String}

/-- The names are words, of letters. -/
theorem isWord_of_mem_commandNames (hname : name ∈ commandNames) :
    name.toList ≠ [] ∧ ∀ c ∈ name.toList, isBlank c = false := by
  have hletters : ∀ name ∈ commandNames, name.toList ≠ [] ∧ name.toList.all isNamePart = true := by
    decide
  obtain ⟨hne, hall⟩ := hletters name hname
  exact ⟨hne, fun c hc => isBlank_of_isNamePart (List.all_eq_true.mp hall c hc)⟩

theorem splitWord_name (hname : name ∈ commandNames) (hbody : Parts body name.toList args) :
    splitWord (trim body) = (name.toList, trim args) :=
  splitWord_trim hbody (isWord_of_mem_commandNames hname).1 (isWord_of_mem_commandNames hname).2

section

variable (hword : IsLineNumber word n) (hargs : Parts args word text)

include hword hargs

theorem splitWord_number : splitWord (trim args) = (word, trim text) :=
  splitWord_trim hargs hword.isWord.1 hword.isWord.2

theorem lineNumber_of_parts (full : String) : lineNumber full (trim args) = .ok n := by
  rw [lineNumber_eq_ok_iff, splitWord_number hword hargs]
  exact hword

theorem text_of_parts (htext : IsTrimmed text) : (splitWord (trim args)).2 = text := by
  rw [splitWord_number hword hargs, trim_of_isTrimmed htext]

end

/-- The commands without arguments do not look at any. -/
theorem command_bare (hname : (name, c) ∈ bareCommands) (args : List Char) :
    name ∈ commandNames ∧ command name args = .ok c := by
  have hall : ∀ entry ∈ bareCommands,
      entry.1 ∈ commandNames ∧ command entry.1 args = .ok entry.2 := by
    simp [bareCommands, commandNames, command, pure, Except.pure]
  exact hall _ hname

/-- What is written is read, with blanks around it or without. -/
theorem command_of_written (h : Written c body) :
    ∃ name args, splitWord (trim body) = (name.toList, args) ∧ command name args = .ok c := by
  cases h with
  | edit hname hbody hargs hword htext =>
    have hknown : ["e", "edit"] ⊆ commandNames := by decide
    refine ⟨_, _, splitWord_name (hknown hname) hbody, ?_⟩
    simp only [List.mem_cons, List.not_mem_nil, or_false] at hname
    obtain rfl | rfl := hname <;>
      simp only [command, lineNumber_of_parts hword hargs, text_of_parts hword hargs htext] <;> rfl
  | insert hname hbody hargs hword htext =>
    have hknown : ["i", "insert"] ⊆ commandNames := by decide
    refine ⟨_, _, splitWord_name (hknown hname) hbody, ?_⟩
    simp only [List.mem_cons, List.not_mem_nil, or_false] at hname
    obtain rfl | rfl := hname <;>
      simp only [command, lineNumber_of_parts hword hargs, text_of_parts hword hargs htext] <;> rfl
  | delete hname hbody hargs hword =>
    have hknown : ["d", "delete"] ⊆ commandNames := by decide
    refine ⟨_, _, splitWord_name (hknown hname) hbody, ?_⟩
    simp only [List.mem_cons, List.not_mem_nil, or_false] at hname
    obtain rfl | rfl := hname <;>
      simp only [command, lineNumber_of_parts hword hargs] <;> rfl
  | @functions name _ path hname hbody hsome htrimmed =>
    have hknown : ["f", "functions"] ⊆ commandNames := by decide
    refine ⟨_, _, splitWord_name (hknown hname) hbody, ?_⟩
    rw [trim_of_isTrimmed htrimmed]
    simp only [List.mem_cons, List.not_mem_nil, or_false] at hname
    obtain rfl | rfl := hname <;> simp [command, hsome, pure, Except.pure]
  | bare hname hbody =>
    exact ⟨_, _, splitWord_name (command_bare hname []).1 hbody, (command_bare hname _).2⟩

theorem isTrimmed_splitWord (h : IsTrimmed text) : IsTrimmed (splitWord text).2 := by
  obtain ⟨gap, -, htext, -⟩ := parts_splitWord text
  refine ⟨head_dropWhile, fun c hc => h.2 c ?_⟩
  rw [htext, List.getLast?_append, List.getLast?_append, Option.mem_def.mp hc]
  rfl

/-- What is read is written. -/
theorem written_of_command (hbody : Parts body name.toList args) (hargs : IsTrimmed args)
    (h : command name args = .ok c) : Written c body := by
  have hparts := parts_splitWord args
  have htext := isTrimmed_splitWord hargs
  unfold command at h
  split at h
  -- the names that go by a line number
  case h_3 | h_4 =>
    obtain ⟨n, hn, rfl⟩ := exists_of_lineNumber_bind h
    exact .edit (by simp) hbody hparts hn htext
  case h_5 | h_6 =>
    obtain ⟨n, hn, rfl⟩ := exists_of_lineNumber_bind h
    exact .insert (by simp) hbody hparts hn htext
  case h_7 | h_8 =>
    obtain ⟨n, hn, rfl⟩ := exists_of_lineNumber_bind h
    exact .delete (by simp) hbody hparts hn
  -- the names that go by a path
  case h_10 | h_11 =>
    split at h
    · cases h
    · rename_i hsome
      cases h
      exact .functions (by simp) hbody (by simpa using hsome) hargs
  -- no name of a command
  case h_17 => cases h
  -- the other names do not look at their arguments
  all_goals
    cases h
    exact .bare (by simp [bareCommands]) hbody

/-- The first character that is no blank is the one that trimming leaves in front. -/
theorem find?_visible (text : List Char) : text.find? (!isBlank ·) = (trimStart text).head? := by
  rw [List.find?_eq_head?_dropWhile_not, trimStart]
  simp

theorem typed_of_parse (h : parse typed = .ok c) : Typed c typed := by
  obtain ⟨name, args, hspells⟩ | hplain := spells_or_plain typed
  · rw [parse_of_spells hspells] at h
    obtain ⟨rest, hrest, hsplit⟩ := hspells
    obtain ⟨before, hbefore, htyped, -⟩ := trimStart_eq_iff.mp hrest
    obtain ⟨inner, after, hinner, hafter, hbody, htrimmed⟩ := exists_trim rest
    have hparts := parts_splitWord (trim rest)
    have hargs := isTrimmed_splitWord htrimmed
    rw [hsplit] at hparts hargs
    exact .command hbefore hinner hafter (hbody ▸ htyped) (written_of_command hparts hargs h)
  · rw [parse_of_plain hplain] at h
    cases h
    exact .line (by rwa [find?_visible])

theorem parse_of_typed (h : Typed c typed) : parse typed = .ok c := by
  cases h with
  | line hplain => exact parse_of_plain (by rwa [find?_visible] at hplain)
  | command hbefore hinner hafter htyped hbody =>
    obtain ⟨name, args, hsplit, hcommand⟩ := command_of_written hbody
    have hspells : Spells typed name args := by
      refine ⟨_, trimStart_eq_iff.mpr ⟨_, hbefore, htyped, by simp; rfl⟩, ?_⟩
      rw [trim_between hinner hafter, hsplit]
    rw [parse_of_spells hspells, hcommand]

end

/-- A line is typed where no colon comes first, and as it is. -/
theorem typed_append_iff {text typed : String} : Typed (.append text) typed
    ↔ typed.toList.find? (!isBlank ·) ≠ some ':' ∧ text = typed := by
  constructor
  · intro h
    cases h with
    | line hplain => exact ⟨hplain, rfl⟩
    | command _ _ _ _ hbody =>
      cases hbody with
      | bare hname => simp [bareCommands] at hname
  · intro h
    obtain ⟨hplain, rfl⟩ := h
    exact .line hplain

/-- **Commands survive being written out.** What is typed is read as the command that it is written
for, with any blanks between its pieces and around them, and with any text in it that no blank
begins or ends; it is read as a line exactly where no colon comes first. All numbers from one to the
greatest can be written, in their usual spelling among others. -/
theorem parse_eq_ok_iff_typed (typed : String) :
    (∀ c, parse typed = .ok c ↔ Typed c typed)
      ∧ (∀ text, parse typed = .ok (.append text)
          ↔ typed.toList.find? (!isBlank ·) ≠ some ':' ∧ text = typed)
      ∧ ∀ n, IsLineNumber (toString n).toList n ↔ 0 < n ∧ n ≤ greatestLineNumber := by
  have hread (c : Command) : parse typed = .ok c ↔ Typed c typed := ⟨typed_of_parse, parse_of_typed⟩
  exact ⟨hread, fun text => (hread _).trans typed_append_iff, isLineNumber_toString⟩

/-- A text with numbers, colons and runs of blanks in it. -/
example : parse " \t: e   +02 3:  :edit 4 \u00A0 5  " = .ok (.edit 2 "3:  :edit 4 \u00A0 5") := by
  decide

end SumSheet.Interactive
