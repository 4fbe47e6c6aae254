/-
SumSheet.Proofs.AssignmentParts — an assignment is a text that is put
together from a name, an equals sign and a right side.

`classify` scans a line from its front. `Assignment` says of the line as a
whole which texts are meant: a lower-case identifier, blanks, an equals
sign, blanks again, and a right side that neither begins nor ends with a
blank and has no line break. An assignment is known by its text
(`Assignment.text_injective`), since each part ends where the run of its
characters ends. In particular its equals sign is the first one; all
others belong to the right side.

Only of a line in normal form is this the whole truth. Where a line may
end with blanks, `classify` makes an assignment of some texts that have
no right side (see `rightSide?`).

  §1 Parts — assignments, and their parts read off the text.
  §2 Lines — which of them are assignments.
-/
import Mathlib
import SumSheet.Proofs.LetterCase

namespace SumSheet

open Text

/-! ## §1 Parts -/

/-- What an assignment may have on its right. -/
structure IsRightSide (right : List Char) : Prop where
  ne_nil : right ≠ []
  head_not_blank : ∀ c ∈ right.head?, isBlank c = false
  last_not_blank : ∀ c ∈ right.getLast?, isBlank c = false
  newline_not_mem : '\n' ∉ right

/-- An assignment in its parts, with the blanks before and after its equals sign. -/
structure Assignment where
  name : List Char
  before : List Char
  after : List Char
  right : List Char
  isIdentifier : IsIdentifier name
  areBlank_before : AreBlank before
  areBlank_after : AreBlank after
  isRightSide : IsRightSide right

namespace Assignment

/-- The assignment as a line. -/
def text (a : Assignment) : List Char :=
  a.name ++ (a.before ++ '=' :: (a.after ++ a.right))

/-- Behind a name stands something that no name goes on with. -/
theorem head_behind_name {before rest : List Char} (hbefore : AreBlank before) :
    ∀ c ∈ (before ++ '=' :: rest).head?, isNamePart c = false := by
  cases before with
  | nil => simp [isNamePart, isNameStart, isAsciiLetter, isAsciiDigit]
  | cons b before =>
    intro c hc
    obtain rfl : b = c := by simpa using hc
    exact isNamePart_of_isBlank (hbefore b (by simp))

theorem takeWhile_text (a : Assignment) : a.text.takeWhile isNamePart = a.name :=
  takeWhile_run (fun c hc => (a.isIdentifier.2 c hc).1) (head_behind_name a.areBlank_before)

theorem dropWhile_text (a : Assignment) :
    a.text.dropWhile isNamePart = a.before ++ '=' :: (a.after ++ a.right) :=
  dropWhile_run (fun c hc => (a.isIdentifier.2 c hc).1) (head_behind_name a.areBlank_before)

theorem head_equals (rest : List Char) : ∀ c ∈ ('=' :: rest).head?, isBlank c = false := by
  intro c hc
  obtain rfl : '=' = c := by simpa using hc
  decide

/-- An assignment is known by its text. -/
theorem text_injective {a b : Assignment} (h : a.text = b.text) : a = b := by
  have hname : a.name = b.name := by rw [← a.takeWhile_text, h, b.takeWhile_text]
  have hbehind : a.before ++ '=' :: (a.after ++ a.right)
      = b.before ++ '=' :: (b.after ++ b.right) := by
    rw [← a.dropWhile_text, h, b.dropWhile_text]
  have hbefore : a.before = b.before := by
    have htake := congrArg (List.takeWhile isBlank) hbehind
    rwa [takeWhile_run a.areBlank_before (head_equals _),
      takeWhile_run b.areBlank_before (head_equals _)] at htake
  have hrest : a.after ++ a.right = b.after ++ b.right := by
    rw [hbefore] at hbehind
    exact (List.cons.inj (List.append_cancel_left hbehind)).2
  have hafter : a.after = b.after := by
    have htake := congrArg (List.takeWhile isBlank) hrest
    rwa [takeWhile_run a.areBlank_after a.isRightSide.head_not_blank,
      takeWhile_run b.areBlank_after b.isRightSide.head_not_blank] at htake
  have hright : a.right = b.right := by
    rw [hafter] at hrest
    exact List.append_cancel_left hrest
  cases a
  cases b
  simp_all

/-- No equals sign stands before the one of the assignment. -/
theorem equals_not_mem (a : Assignment) : '=' ∉ a.name ++ a.before := by
  intro hmem
  rcases List.mem_append.mp hmem with hname | hbefore
  · exact absurd (a.isIdentifier.2 '=' hname).1 (by decide)
  · exact absurd (a.areBlank_before '=' hbefore) (by decide)

theorem rightSide?_behind (a : Assignment) : rightSide? (a.after ++ a.right) = some a.right := by
  have htrim : trimStart (a.after ++ a.right) = a.right :=
    dropWhile_run a.areBlank_after a.isRightSide.head_not_blank
  have hbreak := a.isRightSide.newline_not_mem
  obtain ⟨c, rest, hright⟩ := List.exists_cons_of_ne_nil a.isRightSide.ne_nil
  rw [hright] at htrim hbreak ⊢
  simp [rightSide?, htrim, hbreak]

/-- The text of an assignment is read as this assignment. -/
theorem classify_text (a : Assignment) : classify a.text = .assignment a.name a.right := by
  have hequals : trimStart (a.before ++ '=' :: (a.after ++ a.right))
      = '=' :: (a.after ++ a.right) :=
    dropWhile_run a.areBlank_before (head_equals _)
  simp [classify, a.takeWhile_text, a.dropWhile_text, a.isIdentifier.1, hequals,
    a.rightSide?_behind]

/-- The text of an assignment has no blank at either end. -/
theorem normalize_text (a : Assignment) (hsmall : ∀ c ∈ a.text, IsSmall c) :
    normalize a.text = a.text := by
  obtain ⟨c, rest, hname⟩ := a.isIdentifier.exists_cons
  have htext : a.text = c :: (rest ++ (a.before ++ '=' :: (a.after ++ a.right))) := by
    rw [text, hname, List.cons_append]
  have hhead : isBlank c = false :=
    isBlank_of_isNamePart (a.isIdentifier.2 c (by simp [hname])).1
  have hlast : a.text.getLast? = a.right.getLast? := by
    rw [text]
    simp [List.getLast?_append, List.getLast?_cons,
      List.getLast?_eq_some_getLast a.isRightSide.ne_nil]
  refine normalize_eq_self hsmall ⟨by simpa [htext] using hhead, ?_⟩
  rw [hlast]
  exact a.isRightSide.last_not_blank

/-- An assignment with one space on each side of its equals sign. -/
def spaced {name right : List Char} (hname : IsIdentifier name) (hright : IsRightSide right) :
    Assignment where
  name := name
  before := [' ']
  after := [' ']
  right := right
  isIdentifier := hname
  areBlank_before := by simp [AreBlank, show isBlank ' ' = true from rfl]
  areBlank_after := by simp [AreBlank, show isBlank ' ' = true from rfl]
  isRightSide := hright

theorem normalize_spaced {name right : List Char} (hname : IsIdentifier name)
    (hright : IsRightSide right) (hsmall : ∀ c ∈ right, IsSmall c) :
    normalize (spaced hname hright).text = (spaced hname hright).text := by
  refine normalize_text _ fun c hc => ?_
  simp only [text, spaced, List.cons_append, List.nil_append, List.mem_append, List.mem_cons] at hc
  rcases hc with hc | rfl | rfl | rfl | hc
  · exact isSmall_of_isLowered (hname.2 c hc).2
  · exact isSmall_of_isLowered (by decide)
  · exact isSmall_of_isLowered (by decide)
  · exact isSmall_of_isLowered (by decide)
  · exact hsmall c hc

end Assignment

/-! ## §2 Lines -/

/-- A line is an assignment, or an expression as it stands. -/
theorem classify_cases (text : List Char) :
    (∃ name right, classify text = .assignment name right)
      ∨ classify text = .expression text := by
  simp only [classify]
  split
  · split
    · split
      · exact .inl ⟨_, _, rfl⟩
      · exact .inr rfl
    · exact .inr rfl
  · exact .inr rfl

/-- Where an assignment is cut: behind its name and the blanks stands the equals sign. -/
theorem split_of_classify {text name right : List Char}
    (h : classify text = .assignment name right) :
    ∃ before rest, AreBlank before ∧ text = name ++ (before ++ '=' :: rest)
      ∧ rightSide? rest = some right := by
  simp only [classify] at h
  split at h
  · split at h
    · rename_i rest hequals
      split at h
      · rename_i hright
        cases h
        refine ⟨(text.dropWhile isNamePart).takeWhile isBlank, rest, forall_takeWhile, ?_, hright⟩
        rw [← hequals, trimStart, List.takeWhile_append_dropWhile, List.takeWhile_append_dropWhile]
      · cases h
    · cases h
  · cases h

/-- A right side that does not end with a blank is all that stands behind the blanks. -/
theorem split_of_rightSide? {rest right : List Char} (h : rightSide? rest = some right)
    (hlast : ∀ c ∈ rest.getLast?, isBlank c = false) :
    ∃ after, AreBlank after ∧ rest = after ++ right ∧ IsRightSide right := by
  have hsplit : rest = rest.takeWhile isBlank ++ trimStart rest :=
    List.takeWhile_append_dropWhile.symm
  cases htrim : trimStart rest with
  | nil =>
    -- nothing but blanks is left, and the last of them would be the right side
    have hnone : rest.getLast? = none := by
      rw [Option.eq_none_iff_forall_ne_some]
      intro c hc
      have hmem := List.mem_of_getLast? hc
      rw [hsplit, htrim, List.append_nil] at hmem
      have hblank := forall_takeWhile c hmem
      rw [hlast c hc] at hblank
      cases hblank
    simp [rightSide?, htrim, hnone] at h
  | cons c tail =>
    rw [htrim] at hsplit
    simp only [rightSide?, htrim, Option.ite_none_left_eq_some, Option.some.injEq] at h
    obtain ⟨hbreak, rfl⟩ := h
    refine ⟨rest.takeWhile isBlank, forall_takeWhile, hsplit, ?_⟩
    refine ⟨List.cons_ne_nil c tail, htrim ▸ head_dropWhile, fun d hd => hlast d ?_, ?_⟩
    · rw [hsplit, List.getLast?_append, Option.mem_def.mp hd]
      rfl
    · simpa using hbreak

/-- A line in normal form that is read as an assignment is one. -/
theorem exists_of_classify {text name right : List Char}
    (h : classify (normalize text) = .assignment name right) :
    ∃ a : Assignment, a.text = normalize text ∧ a.name = name ∧ a.right = right := by
  obtain ⟨before, rest, hbefore, htext, hright⟩ := split_of_classify h
  have hlast : ∀ c ∈ (normalize text).getLast?, isBlank c = false := (isTrimmed_trim _).2
  have hrest : ∀ c ∈ rest.getLast?, isBlank c = false := by
    intro c hc
    refine hlast c ?_
    rw [htext]
    simp [List.getLast?_append, List.getLast?_cons, Option.mem_def.mp hc]
  obtain ⟨after, hafter, rfl, hside⟩ := split_of_rightSide? hright hrest
  exact ⟨⟨name, before, after, right, isIdentifier_of_classify h, hbefore, hafter, hside⟩,
    htext.symm, rfl, rfl⟩

/-- **Which lines are assignments.** A line in normal form is read as an assignment exactly if it
is put together like one. It is so in one way only, and with the first equals sign of the line. All
other lines are expressions as they stand. Written with single spaces, the assignment is in normal
form and is read as the same assignment. -/
theorem classify_normalize (text : List Char) :
    (∀ name right, classify (normalize text) = .assignment name right
        ↔ ∃ a : Assignment, a.text = normalize text ∧ a.name = name ∧ a.right = right)
      ∧ (∀ a b : Assignment, a.text = normalize text → b.text = normalize text → a = b)
      ∧ (∀ a : Assignment, a.text = normalize text →
        (normalize text).takeWhile (· != '=') = a.name ++ a.before)
      ∧ ((¬ ∃ a : Assignment, a.text = normalize text) →
        classify (normalize text) = .expression (normalize text))
      ∧ ∀ name right, classify (normalize text) = .assignment name right →
        let line := name ++ ' ' :: '=' :: ' ' :: right
        normalize line = line ∧ classify line = .assignment name right := by
  refine ⟨fun name right => ⟨exists_of_classify, ?_⟩, ?_, ?_, ?_, ?_⟩
  · rintro ⟨a, htext, rfl, rfl⟩
    rw [← htext, a.classify_text]
  · intro a b ha hb
    exact Assignment.text_injective (ha.trans hb.symm)
  · intro a ha
    rw [← ha, Assignment.text, ← List.append_assoc]
    refine takeWhile_run (fun c hc => ?_) (by simp)
    rw [bne_iff_ne]
    rintro rfl
    exact a.equals_not_mem hc
  · intro hnone
    refine (classify_cases _).resolve_left ?_
    rintro ⟨name, right, h⟩
    obtain ⟨a, ha, -⟩ := exists_of_classify h
    exact hnone ⟨a, ha⟩
  · intro name right h line
    obtain ⟨a, ha, rfl, rfl⟩ := exists_of_classify h
    have hsmall : ∀ c ∈ a.right, IsSmall c := by
      intro c hc
      have hmem : c ∈ normalize text := by
        rw [← ha]
        simp [Assignment.text, hc]
      exact isSmall_of_mem_lowerCase (mem_of_mem_trim hmem)
    exact ⟨Assignment.normalize_spaced a.isIdentifier a.isRightSide hsmall,
      (Assignment.spaced a.isIdentifier a.isRightSide).classify_text⟩

/-- A line with two equals signs, a blank that is no space in front of the first and a line break
behind it. -/
theorem classify_normalize_twoEquals :
    let text := "  Total\u2009=\n3 = X ".toList
    classify (normalize text) = .assignment "total".toList "3 = x".toList
      ∧ ∃ a : Assignment, a.text = normalize text ∧ a.name = "total".toList
        ∧ a.right = "3 = x".toList := by
  intro text
  have hkind : classify (normalize text) = .assignment "total".toList "3 = x".toList := by
    decide +kernel
  exact ⟨hkind, ((classify_normalize text).1 _ _).mp hkind⟩

end SumSheet
