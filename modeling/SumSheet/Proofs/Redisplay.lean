/-
SumSheet.Proofs.Redisplay — what a sheet shows is a sheet that shows the
same.

The results of a pass, as they are shown, are taken for the lines of
another pass. If no line has failed and every value is finite, the
second pass shows what the first has shown. No line of it needs any
other: what is shown of a value holds no names but the one assigned.

  §1 Characters  — those of numbers are lower-case, and neither blanks
                   nor a percent sign.
  §2 Percentages — a percentage needs a percent sign.
  §3 Lines       — the result of a line is shown as a line that is its
                   own normal form, and of the same kind.
  §4 Passes      — each line of the second pass shows what it says.
-/
import Mathlib
import SumSheet.Proofs.DisplayText
import SumSheet.Proofs.AssignmentParts
import SumSheet.Proofs.PassScope
import SumSheet.Proofs.PercentageShapes

namespace SumSheet

open Text Number

/-! ## §1 Characters -/

theorem toNat_of_isShownChar {c : Char} (h : isShownChar c = true) :
    0x2B ≤ c.toNat ∧ c.toNat ≤ 0x39 ∨ c.toNat = 0x65 := by
  simp only [isShownChar, Bool.or_eq_true, beq_iff_eq] at h
  rcases h with (((h | rfl) | rfl) | rfl) | rfl
  · have hbounds := toNat_of_isAsciiDigit h
    omega
  all_goals decide

theorem isLowered_of_isShownChar {c : Char} (h : isShownChar c = true) : isLowered c = true := by
  have hpoint := toNat_of_isShownChar h
  simp only [isLowered, isCapital, Bool.and_eq_true, Bool.not_eq_true', decide_eq_true_eq,
    Bool.and_eq_false_iff, decide_eq_false_iff_not]
  omega

theorem isBlank_of_isShownChar {c : Char} (h : isShownChar c = true) : isBlank c = false := by
  have hpoint := toNat_of_isShownChar h
  exact isBlank_of_ascii (by omega) (by omega)

/-! ## §2 Percentages -/

theorem percentageValue?_eq_none {text : List Char} (h : '%' ∉ text) :
    percentageValue? text = none := by
  rw [percentageValue?, Option.map_eq_none_iff, Option.eq_none_iff_forall_ne_some]
  exact fun q hq => h (Percentage.spells_of_read? hq).mem_percent

/-! ## §3 Lines -/

/-- The text of an assignment as it is shown. -/
def assignmentText (name text : List Char) : List Char :=
  name ++ (' ' :: '=' :: ' ' :: text)

theorem IsNumberText.ne_nil {text : List Char} (h : IsNumberText text) : text ≠ [] := by
  obtain ⟨c, rest, rfl, -⟩ := h.start
  exact List.cons_ne_nil _ _

theorem IsNumberText.isRightSide {text : List Char} (h : IsNumberText text) :
    IsRightSide text where
  ne_nil := h.ne_nil
  head_not_blank c hc := isBlank_of_isShownChar (h.chars c (List.mem_of_mem_head? hc))
  last_not_blank c hc := isBlank_of_isShownChar (h.chars c (List.mem_of_getLast? hc))
  newline_not_mem hmem := absurd (h.chars _ hmem) (by decide)

theorem isSmall_of_isShownChar {c : Char} (h : isShownChar c = true) : IsSmall c :=
  isSmall_of_isLowered (isLowered_of_isShownChar h)

theorem normalize_number {text : List Char} (h : IsNumberText text) : normalize text = text :=
  normalize_eq_self (fun c hc => isSmall_of_isShownChar (h.chars c hc))
    ⟨h.isRightSide.head_not_blank, h.isRightSide.last_not_blank⟩

theorem classify_number {text : List Char} (h : IsNumberText text) :
    classify text = .expression text := by
  obtain ⟨c, rest, rfl, hstart⟩ := h.start
  have hname : (((c :: rest).takeWhile isNamePart).head?.map isNameStart).getD false = false := by
    rw [List.takeWhile_cons]
    split
    · exact hstart
    · rfl
  simp only [classify, hname, Bool.false_eq_true, if_false]

section

variable {name text : List Char} (hname : IsIdentifier name) (htext : IsNumberText text)

include hname htext

theorem normalize_assignment : normalize (assignmentText name text) = assignmentText name text :=
  Assignment.normalize_spaced hname htext.isRightSide fun c hc =>
    isSmall_of_isShownChar (htext.chars c hc)

theorem classify_assignment :
    classify (assignmentText name text) = .assignment name text :=
  (Assignment.spaced hname htext.isRightSide).classify_text

end

/-! ## §4 Passes -/

/-- Nothing, or a finite value. -/
def Outcome.isFinite : Outcome → Bool
  | .value x => x.isFinite
  | .failure _ => false
  | .blank => true

/-- A line with this text shows the text, whatever is bound. -/
def IsShownAsItself (evaluator : Evaluator) (text : String) : Prop :=
  ∀ scope id, (lineStep evaluator scope ⟨id, text⟩).result.text = text

theorem isRedisplayed_display {x : Float} (h : x.isFinite = true) :
    IsRedisplayed (display x).toList := by
  rw [← Binary.isSome_ofFloat?] at h
  obtain ⟨b, hb⟩ := Option.isSome_iff_exists.mp h
  rw [display_of_ofFloat? hb]
  exact isRedisplayed_text (Binary.isDouble_of_ofFloat? hb)

theorem display_eq_of_ofFloat? {y : Float} {b : Binary} {text : String}
    (hy : Binary.ofFloat? y = some b) (htext : b.text = text.toList) : display y = text := by
  rw [← String.toList_inj, display_of_ofFloat? hy, htext]

variable (p : Script.Program)

theorem isShownAsItself_blank : IsShownAsItself p.evaluate "" := by
  intro scope id
  rfl

theorem isShownAsItself_value {x : Float} (h : x.isFinite = true) :
    IsShownAsItself p.evaluate (display x) := by
  intro scope id
  have hshown := isRedisplayed_display h
  obtain ⟨y, b, hvalue, hy, htext⟩ := hshown.evaluate p scope
  have hpercent : '%' ∉ (display x).toList := fun hmem => absurd (hshown.chars _ hmem) (by decide)
  have hnormal := normalize_number hshown.toIsNumberText
  have hkind : classify (normalize (display x).toList) = .expression (display x).toList := by
    rw [hnormal, classify_number hshown.toIsNumberText]
  have hgives : Gives p.evaluate scope ⟨id, display x⟩ ⟨id, none, .value y⟩ :=
    .value (by rw [hnormal]; exact hshown.ne_nil) hkind (percentageValue?_eq_none hpercent) hvalue
  rw [← hgives.eq_lineStep]
  exact display_eq_of_ofFloat? hy htext

theorem isShownAsItself_assignment {name : String} (hname : IsIdentifier name.toList) {x : Float}
    (h : x.isFinite = true) : IsShownAsItself p.evaluate (name ++ " = " ++ display x) := by
  intro scope id
  have hshown := isRedisplayed_display h
  obtain ⟨y, b, hvalue, hy, htext⟩ := hshown.evaluate p scope
  have hline : (name ++ " = " ++ display x).toList
      = assignmentText name.toList (display x).toList := by
    simp [assignmentText]
  have hkind : classify (normalize (name ++ " = " ++ display x).toList)
      = .assignment name.toList (display x).toList := by
    rw [hline, normalize_assignment hname hshown.toIsNumberText,
      classify_assignment hname hshown.toIsNumberText]
  have hgives : Gives p.evaluate scope ⟨id, name ++ " = " ++ display x⟩
      ⟨id, some (String.ofList name.toList), .value y⟩ :=
    .bound hkind hvalue
  rw [← hgives.eq_lineStep, String.ofList_toList]
  simp only [ResultLine.text, display_eq_of_ofFloat? hy htext]

/-- The result of a line, if it is blank or finite, is shown as a line that shows the same. -/
theorem isShownAsItself_text {r : ResultLine} (hbinds : r.BindsWell)
    (hfinite : r.outcome.isFinite = true) : IsShownAsItself p.evaluate r.text := by
  cases houtcome : r.outcome with
  | failure f =>
    rw [houtcome] at hfinite
    cases hfinite
  | blank =>
    have htext : r.text = "" := by simp only [ResultLine.text, houtcome]
    rw [htext]
    exact isShownAsItself_blank p
  | value x =>
    rw [houtcome] at hfinite
    cases hassigned : r.assigned with
    | none =>
      have htext : r.text = display x := by simp only [ResultLine.text, houtcome, hassigned]
      rw [htext]
      exact isShownAsItself_value p hfinite
    | some name =>
      have htext : r.text = name ++ " = " ++ display x := by
        simp only [ResultLine.text, houtcome, hassigned]
      rw [htext]
      exact isShownAsItself_assignment p (hbinds name hassigned).1 hfinite

/-- Lines that each show what they say show what they say together. -/
theorem resultsFrom_texts {evaluator : Evaluator} {lines : List Line}
    (h : ∀ line ∈ lines, IsShownAsItself evaluator line.text) (scope : Scope) :
    (resultsFrom evaluator scope lines).map ResultLine.text = lines.map (·.text) := by
  induction lines generalizing scope with
  | nil => rfl
  | cons line rest ih =>
    rw [resultsFrom_cons, List.map_cons, List.map_cons, h line List.mem_cons_self scope line.id,
      ih fun line hline => h line (List.mem_cons_of_mem _ hline)]

/-- **What a sheet shows is a sheet that shows the same**, if all of its lines are blank or have
finite values. -/
theorem recalculateTexts_shown (texts : List String)
    (hfinite : ∀ r ∈ recalculate p.evaluate (Line.numbered texts), r.outcome.isFinite = true) :
    recalculateTexts p.evaluate (recalculateTexts p.evaluate texts)
      = recalculateTexts p.evaluate texts := by
  have hshown : ∀ line ∈ Line.numbered (recalculateTexts p.evaluate texts),
      IsShownAsItself p.evaluate line.text := by
    intro line hline
    have htext : line.text ∈ recalculateTexts p.evaluate texts := by
      rw [← numbered_texts (recalculateTexts p.evaluate texts)]
      exact List.mem_map_of_mem hline
    obtain ⟨r, hr, heq⟩ := List.mem_map.mp htext
    rw [← heq]
    exact isShownAsItself_text p (bindsWell_of_mem_resultsFrom p.evaluate hr) (hfinite r hr)
  calc recalculateTexts p.evaluate (recalculateTexts p.evaluate texts)
      = (Line.numbered (recalculateTexts p.evaluate texts)).map (·.text) :=
        resultsFrom_texts hshown ∅
    _ = recalculateTexts p.evaluate texts := numbered_texts _

/-- A function of a script, a percentage, an exponent and a value below all normal doubles. -/
theorem recalculateTexts_shown_half :
    let p := (Script.compile "fn half(x) \x7b x / 2.0 \x7d").toOption.getD Script.Program.empty
    let texts := ["Third = 2/3", " ", "third * -1e-320", "half(-3e21)", "50% of 9"]
    let shown := ["third = 0.66666666666667", "", "-6.6649455623984e-321", "-1.5e+21", "4.5"]
    (∀ r ∈ recalculate p.evaluate (Line.numbered texts), r.outcome.isFinite = true)
      ∧ recalculateTexts p.evaluate texts = shown
      ∧ recalculateTexts p.evaluate (recalculateTexts p.evaluate texts)
        = recalculateTexts p.evaluate texts := by
  intro p texts shown
  have hall : (recalculate p.evaluate (Line.numbered texts)).all (·.outcome.isFinite) = true := by
    decide +kernel
  have hfinite := List.all_eq_true.mp hall
  exact ⟨hfinite, by decide +kernel, recalculateTexts_shown p texts hfinite⟩

end SumSheet
