/-
SumSheet.Proofs.NormalForm — what the normal form of a line leaves alone,
and which names it lets a line assign.

A line is lower-cased and trimmed before anything else is done with it.
The facts here are used wherever a name, or a value as it is shown, comes
back as the text of a line:

  §1 Characters — no lower-case form is an ASCII capital, and an ASCII
                  character that is no capital is small: its own form.
  §2 Texts      — `lowerCase` and `lower` keep texts of such characters.
  §3 Runs       — what `takeWhile` and `dropWhile` do at the end of a run.
  §4 Blanks     — what `trim` leaves of a text, and what it takes away.
  §5 Names      — a line in normal form assigns lower-case identifiers only.
-/
import Mathlib
import SumSheet.Line

namespace SumSheet.Text

/-! ## §1 Characters -/

/-- One of the capitals `A` to `Z`. -/
def isCapital (c : Char) : Bool :=
  0x41 ≤ c.toNat && c.toNat ≤ 0x5A

/-- An ASCII character that is no capital. -/
def isLowered (c : Char) : Bool :=
  c.toNat < 0x80 && !isCapital c

theorem lowerChar_of_isLowered {c : Char} (h : isLowered c = true) : lowerChar c = c := by
  simp only [isLowered, isCapital, Bool.and_eq_true, Bool.not_eq_true', decide_eq_true_eq,
    Bool.and_eq_false_iff, decide_eq_false_iff_not] at h
  obtain ⟨hascii, hsmall⟩ := h
  have hpoint : lowerPoint c.toNat = c.toNat := by
    rw [lowerPoint, if_pos hascii, if_neg (by omega)]
  rw [lowerChar, hpoint, Char.ofNat_toNat]

/-- A character that is its own lower-case form, wherever it stands. -/
def IsSmall (c : Char) : Prop :=
  ∀ before after, lowerBetween before c after = [c]

theorem isSmall_of_isLowered {c : Char} (h : isLowered c = true) : IsSmall c := by
  intro before after
  have hsigma : (c == 'Σ') = false := by
    rw [beq_eq_false_iff_ne]; rintro rfl; exact absurd h (by decide)
  have hdotted : (c == 'İ') = false := by
    rw [beq_eq_false_iff_ne]; rintro rfl; exact absurd h (by decide)
  simp [lowerBetween, hsigma, hdotted, lowerChar_of_isLowered h]

/-- Every run of the table ends above the capitals `A` to `Z`. -/
theorem run_above_capitals : ∀ run ∈ lowerCaseRuns, (0x5A : Int) < run.first + run.shift := by
  decide +kernel

theorem lowerPoint_not_capital (point : Nat) :
    ¬ (0x41 ≤ lowerPoint point ∧ lowerPoint point ≤ 0x5A) := by
  unfold lowerPoint
  split
  · split <;> omega
  · cases hfound : lowerCaseRuns.findSome? (·.lower? point) with
    | none => simp only [Option.getD_none]; omega
    | some image =>
      obtain ⟨run, hmem, himage⟩ := List.exists_of_findSome?_eq_some hfound
      have habove := run_above_capitals run hmem
      simp only [CaseRun.lower?] at himage
      split at himage
      · simp only [Option.some.injEq] at himage
        simp only [Option.getD_some]
        omega
      · cases himage

theorem isCapital_lowerChar (c : Char) : isCapital (lowerChar c) = false := by
  have hpoint := lowerPoint_not_capital c.toNat
  simp only [isCapital, lowerChar, Char.toNat_ofNat, Bool.and_eq_false_iff,
    decide_eq_false_iff_not]
  split <;> omega

/-! ## §2 Texts -/

/-- Small characters at the front stay as they are. -/
theorem lowerAfter_append_of_isSmall (before : List Char) {front : List Char}
    (h : ∀ c ∈ front, IsSmall c) (cs : List Char) :
    lowerAfter before (front ++ cs) = front ++ lowerAfter (front.reverse ++ before) cs := by
  induction front generalizing before with
  | nil => rfl
  | cons c front ih =>
    rw [List.cons_append, lowerAfter, h c (by simp),
      ih (c :: before) (fun d hd => h d (by simp [hd]))]
    simp

theorem lowerAfter_of_isSmall (before : List Char) {cs : List Char} (h : ∀ c ∈ cs, IsSmall c) :
    lowerAfter before cs = cs := by
  have happend := lowerAfter_append_of_isSmall before h []
  simpa [lowerAfter] using happend

/-- A text of small characters is its own lower-case form. -/
theorem lowerCase_of_isSmall {cs : List Char} (h : ∀ c ∈ cs, IsSmall c) : lowerCase cs = cs :=
  lowerAfter_of_isSmall [] h

/-- A text of ASCII characters without capitals is its own lower-case form. -/
theorem lowerCase_of_isLowered {cs : List Char} (h : ∀ c ∈ cs, isLowered c = true) :
    lowerCase cs = cs :=
  lowerCase_of_isSmall fun c hc => isSmall_of_isLowered (h c hc)

theorem lower_ofList {cs : List Char} (h : ∀ c ∈ cs, isLowered c = true) :
    lower (String.ofList cs) = String.ofList cs := by
  rw [lower, String.toList_ofList, lowerCase_of_isLowered h]

theorem isCapital_of_mem_lowerAfter {before cs : List Char} {c : Char}
    (h : c ∈ lowerAfter before cs) : isCapital c = false := by
  induction cs generalizing before with
  | nil => simp [lowerAfter] at h
  | cons d cs ih =>
    rw [lowerAfter, List.mem_append] at h
    rcases h with h | h
    · unfold lowerBetween at h
      split at h
      · rw [List.mem_singleton] at h
        subst h
        split <;> decide
      · split at h
        · simp only [List.mem_cons, List.not_mem_nil, or_false] at h
          rcases h with rfl | rfl <;> decide
        · rw [List.mem_singleton] at h
          subst h
          exact isCapital_lowerChar d
    · exact ih h

/-- No ASCII capital is left in a lower-case form. -/
theorem isCapital_of_mem_lowerCase {cs : List Char} {c : Char} (h : c ∈ lowerCase cs) :
    isCapital c = false :=
  isCapital_of_mem_lowerAfter h

end SumSheet.Text

namespace SumSheet

open Text

/-! ## §3 Runs -/

theorem takeWhile_run {p : Char → Bool} {run rest : List Char} (hrun : ∀ c ∈ run, p c = true)
    (hrest : ∀ c ∈ rest.head?, p c = false) : (run ++ rest).takeWhile p = run := by
  rw [List.takeWhile_append_of_pos hrun]
  cases rest with
  | nil => simp
  | cons c rest => simp [hrest c rfl]

theorem dropWhile_run {p : Char → Bool} {run rest : List Char} (hrun : ∀ c ∈ run, p c = true)
    (hrest : ∀ c ∈ rest.head?, p c = false) : (run ++ rest).dropWhile p = rest := by
  rw [List.dropWhile_append_of_pos hrun]
  cases rest with
  | nil => rfl
  | cons c rest => simp [hrest c rfl]

theorem forall_takeWhile {p : Char → Bool} {text : List Char} :
    ∀ c ∈ text.takeWhile p, p c = true :=
  fun _ hc => List.mem_takeWhile_imp hc

theorem head_dropWhile {p : Char → Bool} {text : List Char} :
    ∀ c ∈ (text.dropWhile p).head?, p c = false := by
  intro c hc
  have hhead := List.head?_dropWhile_not p text
  rw [Option.mem_def.mp hc] at hhead
  simpa using hhead

/-! ## §4 Blanks -/

/-- There is nothing but blanks. -/
def AreBlank (cs : List Char) : Prop :=
  ∀ c ∈ cs, isBlank c = true

/-- No blank stands at either end. -/
def IsTrimmed (cs : List Char) : Prop :=
  (∀ c ∈ cs.head?, isBlank c = false) ∧ ∀ c ∈ cs.getLast?, isBlank c = false

section

variable {text cs before after : List Char}

theorem areBlank_nil : AreBlank [] := by
  simp [AreBlank]

theorem areBlank_append : AreBlank (before ++ after) ↔ AreBlank before ∧ AreBlank after :=
  List.forall_mem_append

theorem trimStart_eq_iff : trimStart text = cs
    ↔ ∃ before, AreBlank before ∧ text = before ++ cs ∧ ∀ c ∈ cs.head?, isBlank c = false := by
  constructor
  · intro h
    subst h
    exact ⟨text.takeWhile isBlank, forall_takeWhile, List.takeWhile_append_dropWhile.symm,
      head_dropWhile⟩
  · intro h
    obtain ⟨before, hbefore, rfl, hhead⟩ := h
    exact dropWhile_run hbefore hhead

/-- The other end is the front of the reversed text. -/
theorem trimEnd_eq_iff : trimEnd text = cs
    ↔ ∃ after, AreBlank after ∧ text = cs ++ after ∧ ∀ c ∈ cs.getLast?, isBlank c = false := by
  have hreverse : trimEnd text = cs ↔ trimStart text.reverse = cs.reverse := by
    rw [trimEnd, ← List.reverse_inj, List.reverse_reverse]
    rfl
  rw [hreverse, trimStart_eq_iff]
  constructor
  · intro h
    obtain ⟨before, hbefore, htext, hlast⟩ := h
    refine ⟨before.reverse, by simpa [AreBlank] using hbefore, ?_, by simpa using hlast⟩
    simpa using congrArg List.reverse htext
  · intro h
    obtain ⟨after, hafter, rfl, hlast⟩ := h
    exact ⟨after.reverse, by simpa [AreBlank] using hafter, by simp, by simpa using hlast⟩

theorem trim_eq_iff : trim text = cs
    ↔ ∃ before after, AreBlank before ∧ AreBlank after ∧ text = before ++ (cs ++ after)
      ∧ IsTrimmed cs := by
  rw [trim, trimEnd_eq_iff]
  constructor
  · intro h
    obtain ⟨after, hafter, hstart, hlast⟩ := h
    obtain ⟨before, hbefore, htext, hhead⟩ := trimStart_eq_iff.mp hstart
    refine ⟨before, after, hbefore, hafter, htext, fun c hc => hhead c ?_, hlast⟩
    cases cs with
    | nil => cases hc
    | cons d cs => exact hc
  · intro h
    obtain ⟨before, after, hbefore, hafter, rfl, hhead, hlast⟩ := h
    cases cs with
    | nil =>
      refine ⟨[], areBlank_nil, trimStart_eq_iff.mpr ⟨before ++ after, ?_, by simp, by simp⟩, hlast⟩
      exact areBlank_append.mpr ⟨hbefore, hafter⟩
    | cons c cs =>
      have hfront : ∀ d ∈ (c :: cs ++ after).head?, isBlank d = false := by simpa using hhead
      exact ⟨after, hafter, trimStart_eq_iff.mpr ⟨before, hbefore, rfl, hfront⟩, hlast⟩

/-- What trimming takes away is blank. -/
theorem exists_trim (text : List Char) : ∃ before after, AreBlank before ∧ AreBlank after
    ∧ text = before ++ (trim text ++ after) ∧ IsTrimmed (trim text) :=
  trim_eq_iff.mp rfl

theorem isTrimmed_trim (text : List Char) : IsTrimmed (trim text) := by
  obtain ⟨_, _, _, _, _, h⟩ := exists_trim text
  exact h

theorem trim_of_isTrimmed (h : IsTrimmed cs) : trim cs = cs :=
  trim_eq_iff.mpr ⟨[], [], areBlank_nil, areBlank_nil, by simp, h⟩

theorem trim_between (hbefore : AreBlank before) (hafter : AreBlank after) :
    trim (before ++ (text ++ after)) = trim text := by
  obtain ⟨front, back, hfront, hback, htext, h⟩ := exists_trim text
  refine trim_eq_iff.mpr ⟨before ++ front, back ++ after, areBlank_append.mpr ⟨hbefore, hfront⟩,
    areBlank_append.mpr ⟨hback, hafter⟩, ?_, h⟩
  conv_lhs => rw [htext]
  simp

theorem mem_of_mem_trim {c : Char} (h : c ∈ trim text) : c ∈ text := by
  obtain ⟨_, _, _, _, htext, _⟩ := exists_trim text
  rw [htext]
  simp [h]

end

/-! ## §5 Names -/

theorem isCapital_of_mem_normalize {text : List Char} {c : Char} (h : c ∈ normalize text) :
    isCapital c = false :=
  isCapital_of_mem_lowerCase (mem_of_mem_trim h)

/-- A character of a name is an ASCII one. -/
theorem toNat_lt_of_isNamePart {c : Char} (h : isNamePart c = true) : c.toNat < 0x80 := by
  simp only [isNamePart, isNameStart, isAsciiLetter, isAsciiDigit, Bool.or_eq_true,
    Bool.and_eq_true, decide_eq_true_eq, beq_iff_eq, Char.le_def, UInt32.le_iff_toNat_le] at h
  rcases h with (((⟨_, h⟩ | ⟨_, h⟩) | rfl) | ⟨_, h⟩)
  · exact Nat.lt_of_le_of_lt h (by decide)
  · exact Nat.lt_of_le_of_lt h (by decide)
  · decide
  · exact Nat.lt_of_le_of_lt h (by decide)

theorem toNat_of_isAsciiDigit {c : Char} (h : isAsciiDigit c = true) :
    0x30 ≤ c.toNat ∧ c.toNat ≤ 0x39 := by
  simpa [isAsciiDigit, Char.le_def, UInt32.le_iff_toNat_le] using h

/-- The blanks among the ASCII characters are no greater than the space. -/
theorem isBlank_of_ascii {c : Char} (hlow : 0x20 < c.toNat) (hhigh : c.toNat < 0x80) :
    isBlank c = false := by
  rw [← Bool.not_eq_true, isBlank, inRanges_iff]
  rintro ⟨r, hr, hbounds⟩
  simp only [blankRanges, List.mem_cons, List.not_mem_nil, or_false] at hr
  rcases hr with rfl | rfl | rfl | rfl | rfl | rfl | rfl | rfl | rfl | rfl <;> omega

theorem isBlank_of_isNamePart {c : Char} (h : isNamePart c = true) : isBlank c = false := by
  refine isBlank_of_ascii ?_ (toNat_lt_of_isNamePart h)
  simp only [isNamePart, isNameStart, isAsciiLetter, Bool.or_eq_true, Bool.and_eq_true,
    decide_eq_true_eq, beq_iff_eq, Char.le_def, UInt32.le_iff_toNat_le] at h
  rcases h with (((⟨h, _⟩ | ⟨h, _⟩) | rfl) | h)
  · exact Nat.lt_of_lt_of_le (by decide) h
  · exact Nat.lt_of_lt_of_le (by decide) h
  · decide
  · exact Nat.lt_of_lt_of_le (by decide) (toNat_of_isAsciiDigit h).1

theorem isNamePart_of_isBlank {c : Char} (h : isBlank c = true) : isNamePart c = false := by
  by_contra hpart
  rw [Bool.not_eq_false] at hpart
  rw [isBlank_of_isNamePart hpart] at h
  cases h

theorem isLowered_of_isNamePart {c : Char} (h : isNamePart c = true)
    (hsmall : isCapital c = false) : isLowered c = true := by
  simp [isLowered, toNat_lt_of_isNamePart h, hsmall]

/-- A lower-case identifier: `a` to `z`, digits and underscores, and no digit in front. -/
def IsIdentifier (name : List Char) : Prop :=
  (name.head?.map isNameStart).getD false = true ∧ ∀ c ∈ name, isNamePart c ∧ isLowered c

/-- What an assignment looks like: its name is all that a name can be. -/
theorem name_of_classify {text name right : List Char}
    (h : classify text = .assignment name right) :
    name = text.takeWhile isNamePart ∧ (name.head?.map isNameStart).getD false = true := by
  simp only [classify] at h
  split at h
  · rename_i hstart
    split at h
    · split at h
      · cases h; exact ⟨rfl, hstart⟩
      · cases h
    · cases h
  · cases h

/-- The right side of an assignment is a part of it. -/
theorem right_subset_of_classify {text name right : List Char}
    (h : classify text = .assignment name right) : right ⊆ text := by
  have hright {behind : List Char} (hsome : rightSide? behind = some right) : right ⊆ behind := by
    simp only [rightSide?, Option.ite_none_left_eq_some, Option.some.injEq] at hsome
    obtain ⟨-, rfl⟩ := hsome
    split
    · intro c hc
      exact List.mem_of_getLast? (Option.mem_toList.mp hc)
    · rename_i htrim
      rw [← htrim]
      exact List.dropWhile_subset _
  simp only [classify] at h
  split at h
  · split at h
    · rename_i behind hequals
      have hbehind : behind ⊆ text := by
        intro c hc
        have hmem : c ∈ trimStart (text.dropWhile isNamePart) := hequals ▸ List.mem_cons_of_mem _ hc
        exact List.dropWhile_subset _ (List.dropWhile_subset _ hmem)
      split at h
      · cases h
        exact List.Subset.trans (hright ‹_›) hbehind
      · cases h
    · cases h
  · cases h

/-- A line in normal form assigns a lower-case identifier. -/
theorem isIdentifier_of_classify {text name right : List Char}
    (h : classify (normalize text) = .assignment name right) : IsIdentifier name := by
  obtain ⟨hname, hstart⟩ := name_of_classify h
  refine ⟨hstart, fun c hc => ?_⟩
  have hpart : isNamePart c = true := by
    rw [hname] at hc
    exact List.mem_takeWhile_imp hc
  have hmem : c ∈ normalize text := by
    rw [hname] at hc
    exact List.takeWhile_subset _ hc
  exact ⟨hpart, isLowered_of_isNamePart hpart (isCapital_of_mem_normalize hmem)⟩

theorem IsIdentifier.lower_eq {name : List Char} (h : IsIdentifier name) :
    lower (String.ofList name) = String.ofList name :=
  lower_ofList fun c hc => (h.2 c hc).2

theorem IsIdentifier.exists_cons {name : List Char} (h : IsIdentifier name) :
    ∃ c rest, name = c :: rest := by
  cases name with
  | nil => exact absurd h.1 (by decide)
  | cons c rest => exact ⟨c, rest, rfl⟩

/-- A text of small characters, with no blank at either end, is its own normal form. -/
theorem normalize_eq_self {text : List Char} (hsmall : ∀ c ∈ text, IsSmall c)
    (htrimmed : IsTrimmed text) : normalize text = text := by
  rw [normalize, lowerCase_of_isSmall hsmall, trim_of_isTrimmed htrimmed]

end SumSheet
