/-
SumSheet.Proofs.LetterCase — a sheet takes no notice of case, nor of the
blanks around a line.

Every line is put into its normal form before it is looked at. Two facts
carry the results: a normal form is its own normal form
(`normalize_normalize`), and texts that are `Alike`, which differ at most
in the case of ASCII letters and in the blanks at either end, have the
same normal form (`normalize_eq_of_alike`).

Neither is a matter of single characters. Whether a sigma is lowered to
its final form depends on what stands around it, and lower-casing comes
before trimming. It goes well because blanks are neither cased nor
case-ignorable, so a word ends at a blank just as it ends at the end of a
text, and because an ASCII letter is cased in either case.

  §1 Table   — no lower-case form has a further one.
  §2 Small   — so a lower-case form consists of small characters.
  §3 Letters — lower-casing does not see the case of ASCII letters.
  §4 Blanks  — nor the blanks around a text.
  §5 Lines   — normal forms.
  §6 Sheets  — a pass over lines that are alike.
-/
import SumSheet.Proofs.PassScope

namespace SumSheet.Text

/-! ## §1 Table -/

/-- The image of a code point of the run. -/
def CaseRun.image (run : CaseRun) (point : Nat) : Nat :=
  (point + run.shift).toNat

/-- The code points of the run, counted from its first, as the bits of one number. -/
def CaseRun.pattern (run : CaseRun) : Nat :=
  (List.range ((run.last - run.first) / run.stride + 1)).foldr
    (fun step bits => bits ||| 1 <<< (run.stride * step)) 0

/-- The patterns of the runs in one number, each from the code point where `start` puts it. Two
such sets are compared at once, and not run by run. -/
def patternsAt (start : CaseRun → Nat) (runs : List CaseRun) : Nat :=
  runs.foldr (fun run bits => bits ||| run.pattern <<< start run) 0

/-- No capital is an image: as sets of bits, the two are disjoint. -/
theorem capitals_and_images :
    patternsAt (·.first) lowerCaseRuns &&& patternsAt (fun run => run.image run.first) lowerCaseRuns
      = 0 := by
  decide +kernel

/-- The dotted capital I has no run, and it is no image of one. -/
theorem run_avoids_dotted : ∀ run ∈ lowerCaseRuns,
    run.image run.last < 0x130 ∨ 0x130 < run.image run.first := by
  decide +kernel

theorem CaseRun.lower?_eq_some {run : CaseRun} {point image : Nat}
    (h : run.lower? point = some image) :
    run.first ≤ point ∧ point ≤ run.last ∧ (point - run.first) % run.stride = 0
      ∧ image = run.image point := by
  rw [CaseRun.lower?, Option.ite_none_right_eq_some] at h
  obtain ⟨⟨hfirst, hlast, hstride⟩, himage⟩ := h
  exact ⟨hfirst, hlast, hstride, (Option.some.inj himage).symm⟩

theorem testBit_foldr_or {α : Type} (f : α → Nat) {xs : List α} {x : α} (hx : x ∈ xs) {bit : Nat}
    (hbit : (f x).testBit bit = true) :
    (xs.foldr (fun x bits => bits ||| f x) 0).testBit bit = true := by
  induction hx with
  | head rest => rw [List.foldr_cons, Nat.testBit_or, hbit, Bool.or_true]
  | tail y _ ih => rw [List.foldr_cons, Nat.testBit_or, ih, Bool.true_or]

/-- A capital of a run has its bit in the pattern of the run. -/
theorem CaseRun.testBit_pattern {run : CaseRun} {point image : Nat}
    (h : run.lower? point = some image) : run.pattern.testBit (point - run.first) = true := by
  obtain ⟨hfirst, hlast, hstride, -⟩ := CaseRun.lower?_eq_some h
  have hstep : run.stride * ((point - run.first) / run.stride) = point - run.first :=
    Nat.mul_div_cancel' (Nat.dvd_of_mod_eq_zero hstride)
  have hcount : (point - run.first) / run.stride < (run.last - run.first) / run.stride + 1 :=
    Nat.lt_succ_of_le (Nat.div_le_div_right (by omega))
  refine testBit_foldr_or (fun step => 1 <<< (run.stride * step)) (List.mem_range.mpr hcount) ?_
  rw [hstep, Nat.one_shiftLeft, Nat.testBit_two_pow_self]

theorem testBit_patternsAt (start : CaseRun → Nat) {run : CaseRun} (hrun : run ∈ lowerCaseRuns)
    {point image : Nat} (h : run.lower? point = some image) :
    (patternsAt start lowerCaseRuns).testBit (start run + (point - run.first)) = true := by
  refine testBit_foldr_or (fun run => run.pattern <<< start run) hrun ?_
  rw [Nat.testBit_shiftLeft, Nat.add_sub_cancel_left, CaseRun.testBit_pattern h, Bool.and_true]
  exact decide_eq_true (Nat.le_add_right ..)

/-- An image of one run is no capital of another. -/
theorem lower?_image {run other : CaseRun} (hrun : run ∈ lowerCaseRuns)
    (hother : other ∈ lowerCaseRuns) {point image : Nat} (himage : run.lower? point = some image) :
    other.lower? image = none := by
  refine Option.eq_none_iff_forall_ne_some.mpr fun further hfurther => ?_
  obtain ⟨hfirst, -, -, hpoint⟩ := CaseRun.lower?_eq_some himage
  obtain ⟨hfirst', -, -, -⟩ := CaseRun.lower?_eq_some hfurther
  have habove := run_above_capitals run hrun
  have hcapital := testBit_patternsAt (·.first) hother hfurther
  have himage := testBit_patternsAt (fun run => run.image run.first) hrun himage
  rw [Nat.add_sub_cancel' hfirst'] at hcapital
  have hsame : run.image run.first + (point - run.first) = image := by
    rw [hpoint, CaseRun.image, CaseRun.image]
    omega
  rw [hsame] at himage
  have hboth := congrArg (·.testBit image) capitals_and_images
  simp [Nat.testBit_and, hcapital, himage] at hboth

/-- The lower-case form of a code point: an ASCII letter in small, an image of the table, or the
code point itself. -/
theorem lowerPoint_cases (point : Nat) :
    (lowerPoint point < 0x80 ∧ ¬ (0x41 ≤ lowerPoint point ∧ lowerPoint point ≤ 0x5A))
      ∨ (∃ run ∈ lowerCaseRuns, run.lower? point = some (lowerPoint point))
      ∨ (lowerPoint point = point ∧ ∀ run ∈ lowerCaseRuns, run.lower? point = none) := by
  by_cases hascii : point < 0x80
  · refine .inl ⟨?_, lowerPoint_not_capital point⟩
    rw [lowerPoint, if_pos hascii]
    split <;> omega
  · rw [lowerPoint, if_neg hascii]
    cases hfound : lowerCaseRuns.findSome? (·.lower? point) with
    | none => exact .inr (.inr ⟨rfl, List.findSome?_eq_none_iff.mp hfound⟩)
    | some image =>
      obtain ⟨run, hmem, himage⟩ := List.exists_of_findSome?_eq_some hfound
      exact .inr (.inl ⟨run, hmem, himage⟩)

/-- What is no ASCII capital and has no run stays. -/
theorem lowerPoint_eq_self {point : Nat} (hcapital : ¬ (0x41 ≤ point ∧ point ≤ 0x5A))
    (hruns : 0x80 ≤ point → ∀ run ∈ lowerCaseRuns, run.lower? point = none) :
    lowerPoint point = point := by
  by_cases hascii : point < 0x80
  · rw [lowerPoint, if_pos hascii, if_neg hcapital]
  · rw [lowerPoint, if_neg hascii,
      List.findSome?_eq_none_iff.mpr (hruns (Nat.le_of_not_lt hascii))]
    rfl

/-- A lower-case form has no further one. -/
theorem lowerPoint_lowerPoint (point : Nat) :
    lowerPoint (lowerPoint point) = lowerPoint point := by
  refine lowerPoint_eq_self (lowerPoint_not_capital point) fun hlarge other hother => ?_
  rcases lowerPoint_cases point with ⟨hascii, _⟩ | ⟨run, hrun, himage⟩ | ⟨hsame, hnone⟩
  · omega
  · exact lower?_image hrun hother himage
  · rw [hsame]
    exact hnone other hother

/-- The dotted capital I is nothing's lower-case form but its own. -/
theorem lowerPoint_eq_dotted {point : Nat} (h : lowerPoint point = 0x130) : point = 0x130 := by
  rcases lowerPoint_cases point with ⟨hascii, _⟩ | ⟨run, hrun, himage⟩ | ⟨hsame, _⟩
  · omega
  · obtain ⟨hfirst, hlast, _, hpoint⟩ := CaseRun.lower?_eq_some himage
    have havoids := run_avoids_dotted run hrun
    simp only [CaseRun.image] at hpoint havoids
    omega
  · omega

/-! ## §2 Small -/

theorem lowerChar_lowerChar (c : Char) : lowerChar (lowerChar c) = lowerChar c := by
  by_cases hvalid : (lowerPoint c.toNat).isValidChar
  · have hpoint : (lowerChar c).toNat = lowerPoint c.toNat := by
      rw [lowerChar, Char.toNat_ofNat, if_pos hvalid]
    rw [lowerChar, hpoint, lowerPoint_lowerPoint, lowerChar]
  -- the table leads to characters only, but that need not be known here
  · have hzero : lowerChar c = '\x00' := by rw [lowerChar, Char.ofNat, dif_neg hvalid]; rfl
    rw [hzero]
    rfl

/-- A capital sigma has a lower-case form. What the rules for it and for the dotted I put into a
text has no further one. -/
theorem lowerChar_special : lowerChar 'Σ' ≠ 'Σ' ∧ lowerChar 'σ' = 'σ' ∧ lowerChar 'ς' = 'ς'
    ∧ lowerChar 'i' = 'i' ∧ lowerChar '\u0307' = '\u0307' := by
  decide +kernel

theorem lowerChar_ne_sigma (c : Char) : lowerChar c ≠ 'Σ' := by
  intro h
  have hagain := lowerChar_lowerChar c
  rw [h] at hagain
  exact lowerChar_special.1 hagain

theorem lowerChar_ne_dotted {c : Char} (h : c ≠ 'İ') : lowerChar c ≠ 'İ' := by
  intro hlower
  have hpoint : (lowerChar c).toNat = 0x130 := congrArg Char.toNat hlower
  rw [lowerChar, Char.toNat_ofNat] at hpoint
  split at hpoint
  · apply h
    rw [← Char.ofNat_toNat c, lowerPoint_eq_dotted hpoint]
  · cases hpoint

theorem lowerBetween_other {c : Char} (hsigma : c ≠ 'Σ') (hdotted : c ≠ 'İ')
    (before after : List Char) : lowerBetween before c after = [lowerChar c] := by
  simp [lowerBetween, hsigma, hdotted]

theorem isSmall_of_lowerChar_eq {c : Char} (hsigma : c ≠ 'Σ') (hdotted : c ≠ 'İ')
    (h : lowerChar c = c) : IsSmall c := by
  intro before after
  rw [lowerBetween_other hsigma hdotted, h]

theorem isSmall_of_mem_lowerBetween {before after : List Char} {c d : Char}
    (h : d ∈ lowerBetween before c after) : IsSmall d := by
  by_cases hsigma : c = 'Σ'
  · simp only [lowerBetween, hsigma, beq_self_eq_true, if_true, List.mem_singleton] at h
    subst h
    split
    · exact isSmall_of_lowerChar_eq (by decide) (by decide) lowerChar_special.2.2.1
    · exact isSmall_of_lowerChar_eq (by decide) (by decide) lowerChar_special.2.1
  · by_cases hdotted : c = 'İ'
    · subst hdotted
      have hforms : d = 'i' ∨ d = '\u0307' := by simpa [lowerBetween] using h
      rcases hforms with rfl | rfl
      · exact isSmall_of_lowerChar_eq (by decide) (by decide) lowerChar_special.2.2.2.1
      · exact isSmall_of_lowerChar_eq (by decide) (by decide) lowerChar_special.2.2.2.2
    · rw [lowerBetween_other hsigma hdotted, List.mem_singleton] at h
      subst h
      exact isSmall_of_lowerChar_eq (lowerChar_ne_sigma c) (lowerChar_ne_dotted hdotted)
        (lowerChar_lowerChar c)

theorem isSmall_of_mem_lowerAfter {before cs : List Char} {d : Char}
    (h : d ∈ lowerAfter before cs) : IsSmall d := by
  induction cs generalizing before with
  | nil => simp [lowerAfter] at h
  | cons c cs ih =>
    rcases List.mem_append.mp h with h | h
    · exact isSmall_of_mem_lowerBetween h
    · exact ih h

/-- A lower-case form consists of small characters. -/
theorem isSmall_of_mem_lowerCase {cs : List Char} {d : Char} (h : d ∈ lowerCase cs) : IsSmall d :=
  isSmall_of_mem_lowerAfter h

/-- A lower-case text is its own lower-case form. -/
theorem lower_lower (s : String) : lower (lower s) = lower s := by
  rw [lower, lower, String.toList_ofList,
    lowerCase_of_isSmall fun _ => isSmall_of_mem_lowerCase]

/-! ## §3 Letters -/

/-- No range of the one list meets a range of the other. -/
def areApart (ranges others : List (Nat × Nat)) : Bool :=
  ranges.all fun r => others.all fun s => Nat.blt r.2 s.1 || Nat.blt s.2 r.1

/-- A character of one class is not of another, if no two of their ranges meet. -/
theorem inRanges_of_areApart {ranges others : List (Nat × Nat)}
    (h : areApart ranges others = true) {c : Char} (hc : inRanges ranges c = true) :
    inRanges others c = false := by
  rw [Bool.eq_false_iff, Ne, inRanges_iff]
  rintro ⟨s, hs, hfirst, hlast⟩
  obtain ⟨r, hr, hfirst', hlast'⟩ := (inRanges_iff ranges c).mp hc
  have hapart := List.all_eq_true.mp (List.all_eq_true.mp h r hr) s hs
  rw [Bool.or_eq_true, Nat.blt_eq, Nat.blt_eq] at hapart
  omega

/-- The ASCII letters, as ranges of code points. -/
def letterRanges : List (Nat × Nat) := [(0x41, 0x5A), (0x61, 0x7A)]

/-- The runs of the table, as ranges of code points. -/
def runRanges : List (Nat × Nat) := lowerCaseRuns.map fun run => (run.first, run.last)

/-- No ASCII letter is case-ignorable. No blank is cased or case-ignorable, or has a run. -/
theorem classes_apart : areApart letterRanges caseIgnorableRanges = true
    ∧ areApart blankRanges casedRanges = true ∧ areApart blankRanges caseIgnorableRanges = true
    ∧ areApart blankRanges runRanges = true := by
  decide +kernel

theorem isCaseIgnorable_of_letter (c : Char) (h : inRanges letterRanges c = true) :
    isCaseIgnorable c = false :=
  inRanges_of_areApart classes_apart.1 h

theorem isCased_of_letter (c : Char) (h : inRanges letterRanges c = true) : isCased c = true := by
  obtain ⟨r, hr, hbounds⟩ := (inRanges_iff letterRanges c).mp h
  have hcased : ∀ r ∈ letterRanges, r ∈ casedRanges := by decide
  exact (inRanges_iff casedRanges c).mpr ⟨r, hcased r hr, hbounds⟩

/-- A character is its own small letter, or a capital, and then its small letter lies 32 further
on. -/
theorem toLower_cases (c : Char) :
    c.toLower = c ∨ (0x41 ≤ c.toNat ∧ c.toNat ≤ 0x5A ∧ c.toLower.toNat = c.toNat + 0x20) := by
  by_cases hcapital : c.val ≥ 'A'.val ∧ c.val ≤ 'Z'.val
  · right
    have hbounds : 0x41 ≤ c.toNat ∧ c.toNat ≤ 0x5A := hcapital
    have hsum : c.toLower.toNat = (c.toNat + 0x20) % 4294967296 := by
      rw [Char.toLower, dif_pos hcapital]
      exact UInt32.toNat_add _ _
    exact ⟨hbounds.1, hbounds.2, by omega⟩
  · left
    rw [Char.toLower, dif_neg hcapital]

/-- What is the same for all ASCII letters is the same for a character and its small letter. -/
theorem toLower_congr {β : Type} {f : Char → β} {b : β}
    (h : ∀ c, inRanges letterRanges c = true → f c = b) (c : Char) : f c.toLower = f c := by
  rcases toLower_cases c with hsame | ⟨hfirst, hlast, hsmall⟩
  · rw [hsame]
  · have hcapital := (inRanges_iff letterRanges c).mpr ⟨(0x41, 0x5A), by decide, hfirst, hlast⟩
    have hletter := (inRanges_iff letterRanges c.toLower).mpr
      ⟨(0x61, 0x7A), by decide, by rw [hsmall]; simp only; omega, by rw [hsmall]; simp only; omega⟩
    rw [h c hcapital, h c.toLower hletter]

theorem nearestIsCased_cons (c : Char) (cs : List Char) :
    nearestIsCased (c :: cs) = if isCaseIgnorable c then nearestIsCased cs else isCased c := by
  by_cases hignorable : isCaseIgnorable c = true <;> simp [nearestIsCased, hignorable]

theorem nearestIsCased_toLower (cs : List Char) :
    nearestIsCased (cs.map Char.toLower) = nearestIsCased cs := by
  induction cs with
  | nil => rfl
  | cons c cs ih =>
    rw [List.map_cons, nearestIsCased_cons, nearestIsCased_cons, ih,
      toLower_congr isCaseIgnorable_of_letter, toLower_congr isCased_of_letter]

/-- Of its neighbours, a character only asks whether they are cased. -/
theorem lowerBetween_congr {before before' after after' : List Char}
    (hbefore : nearestIsCased before = nearestIsCased before')
    (hafter : nearestIsCased after = nearestIsCased after') (c : Char) :
    lowerBetween before c after = lowerBetween before' c after' := by
  have hends : endsWord before after = endsWord before' after' := by
    rw [endsWord, endsWord, hbefore, hafter]
  rw [lowerBetween, lowerBetween, hends]

theorem lowerPoint_small {point : Nat} (hfirst : 0x41 ≤ point) (hlast : point ≤ 0x5A) :
    lowerPoint (point + 0x20) = lowerPoint point := by
  have hcapital : lowerPoint point = point + 0x20 := by
    rw [lowerPoint, if_pos (by omega), if_pos ⟨hfirst, hlast⟩]
  rw [hcapital, lowerPoint, if_pos (by omega), if_neg (by omega)]

theorem lowerBetween_toLower (before after : List Char) (c : Char) :
    lowerBetween before c.toLower after = lowerBetween before c after := by
  rcases toLower_cases c with hsame | ⟨hfirst, hlast, hsmall⟩
  · rw [hsame]
  · have hother {d : Char} (hascii : d.toNat < 0x80) :
        lowerBetween before d after = [lowerChar d] := by
      refine lowerBetween_other ?_ ?_ before after <;>
        (rintro rfl; exact absurd hascii (by decide))
    rw [hother (by omega), hother (by omega), lowerChar, lowerChar, hsmall,
      lowerPoint_small hfirst hlast]

theorem lowerAfter_toLower {before before' : List Char}
    (hbefore : nearestIsCased before = nearestIsCased before') (cs : List Char) :
    lowerAfter before (cs.map Char.toLower) = lowerAfter before' cs := by
  induction cs generalizing before before' with
  | nil => rfl
  | cons c cs ih =>
    have hcons : nearestIsCased (c.toLower :: before) = nearestIsCased (c :: before') := by
      rw [nearestIsCased_cons, nearestIsCased_cons, hbefore,
        toLower_congr isCaseIgnorable_of_letter, toLower_congr isCased_of_letter]
    rw [List.map_cons, lowerAfter, lowerAfter, lowerBetween_toLower, ih hcons,
      lowerBetween_congr hbefore (nearestIsCased_toLower cs)]

/-- Of what stands before a text, its lower-case form only asks whether it is cased. -/
theorem lowerAfter_congr {before before' : List Char}
    (hbefore : nearestIsCased before = nearestIsCased before') (cs : List Char) :
    lowerAfter before cs = lowerAfter before' cs :=
  (lowerAfter_toLower rfl cs).symm.trans (lowerAfter_toLower hbefore cs)

/-- The case of ASCII letters makes no difference to the lower-case form. -/
theorem lowerCase_toLower (cs : List Char) : lowerCase (cs.map Char.toLower) = lowerCase cs :=
  lowerAfter_toLower rfl cs

/-! ## §4 Blanks -/

section

variable {blanks : List Char} (hblanks : AreBlank blanks)

theorem isCased_of_isBlank {c : Char} (h : isBlank c = true) : isCased c = false :=
  inRanges_of_areApart classes_apart.2.1 h

theorem isCaseIgnorable_of_isBlank {c : Char} (h : isBlank c = true) :
    isCaseIgnorable c = false :=
  inRanges_of_areApart classes_apart.2.2.1 h

theorem isSmall_of_isBlank {c : Char} (h : isBlank c = true) : IsSmall c := by
  have hnone := inRanges_of_areApart classes_apart.2.2.2 h
  rw [Bool.eq_false_iff, Ne, inRanges_iff] at hnone
  have hruns : ∀ run ∈ lowerCaseRuns, ¬ (run.first ≤ c.toNat ∧ c.toNat ≤ run.last) :=
    fun run hrun hbounds => hnone ⟨_, List.mem_map_of_mem hrun, hbounds⟩
  have hpoint : lowerPoint c.toNat = c.toNat := by
    -- the ASCII capitals are the first run
    refine lowerPoint_eq_self (hruns _ (List.Mem.head _)) fun _ run hrun => ?_
    rw [CaseRun.lower?, if_neg fun hpoint => hruns run hrun ⟨hpoint.1, hpoint.2.1⟩]
  refine isSmall_of_lowerChar_eq ?_ ?_ (by rw [lowerChar, hpoint, Char.ofNat_toNat]) <;>
    (rintro rfl; exact absurd h (by decide))

include hblanks

theorem nearestIsCased_blanks : nearestIsCased blanks = false := by
  cases blanks with
  | nil => rfl
  | cons c rest =>
    have hblank := hblanks c (by simp)
    simp [nearestIsCased_cons, isCased_of_isBlank hblank, isCaseIgnorable_of_isBlank hblank]

theorem nearestIsCased_append_blanks (cs : List Char) :
    nearestIsCased (cs ++ blanks) = nearestIsCased cs := by
  induction cs with
  | nil => exact nearestIsCased_blanks hblanks
  | cons c cs ih => rw [List.cons_append, nearestIsCased_cons, nearestIsCased_cons, ih]

theorem lowerAfter_append_blanks (before cs : List Char) :
    lowerAfter before (cs ++ blanks) = lowerAfter before cs ++ blanks := by
  induction cs generalizing before with
  | nil => exact lowerAfter_of_isSmall before fun c hc => isSmall_of_isBlank (hblanks c hc)
  | cons c cs ih =>
    rw [List.cons_append, lowerAfter, lowerAfter, ih, List.append_assoc,
      lowerBetween_congr rfl (nearestIsCased_append_blanks hblanks cs)]

theorem lowerCase_blanks_append (cs : List Char) :
    lowerCase (blanks ++ cs) = blanks ++ lowerCase cs := by
  have hends : nearestIsCased (blanks.reverse ++ []) = nearestIsCased [] := by
    rw [List.append_nil]
    exact nearestIsCased_blanks fun c hc => hblanks c (List.mem_reverse.mp hc)
  rw [lowerCase, lowerAfter_append_of_isSmall [] fun c hc => isSmall_of_isBlank (hblanks c hc),
    lowerAfter_congr hends, lowerCase]

end

theorem lowerCase_surrounded {front back : List Char} (hfront : AreBlank front)
    (hback : AreBlank back) (cs : List Char) :
    lowerCase (front ++ (cs ++ back)) = front ++ (lowerCase cs ++ back) := by
  rw [lowerCase_blanks_append hfront, lowerCase, lowerAfter_append_blanks hback, ← lowerCase]

end SumSheet.Text

namespace SumSheet

open Text

/-! ## §5 Lines -/

/-- The texts differ at most in the case of ASCII letters and in the blanks at either end. -/
def Alike (first second : List Char) : Prop :=
  (trim first).map Char.toLower = (trim second).map Char.toLower

instance (first second : List Char) : Decidable (Alike first second) :=
  inferInstanceAs (Decidable (_ = _))

theorem normalize_toLower (text : List Char) :
    normalize (text.map Char.toLower) = normalize text := by
  rw [normalize, lowerCase_toLower, normalize]

theorem normalize_trim (text : List Char) : normalize (trim text) = normalize text := by
  obtain ⟨front, back, hfront, hback, htext, -⟩ := exists_trim text
  conv_rhs => rw [htext, normalize, lowerCase_surrounded hfront hback, trim_between hfront hback]
  rfl

/-- Texts that are alike have the same normal form. -/
theorem normalize_eq_of_alike {first second : List Char} (h : Alike first second) :
    normalize first = normalize second :=
  calc normalize first
    _ = normalize ((trim first).map Char.toLower) := by rw [normalize_toLower, normalize_trim]
    _ = normalize ((trim second).map Char.toLower) := by rw [h]
    _ = normalize second := by rw [normalize_toLower, normalize_trim]

/-- A normal form is its own normal form. -/
theorem normalize_normalize (text : List Char) : normalize (normalize text) = normalize text := by
  have hsmall : lowerCase (trim (lowerCase text)) = trim (lowerCase text) :=
    lowerCase_of_isSmall fun c hc => isSmall_of_mem_lowerCase (mem_of_mem_trim hc)
  rw [normalize, normalize, hsmall, trim_of_isTrimmed (isTrimmed_trim _)]

/-! ## §6 Sheets -/

section

variable (evaluator : Evaluator)

/-- A line is known by its normal form; the result only carries its id besides. -/
theorem lineStep_of_normalize_eq (scope : Scope) {first second : Line}
    (h : normalize first.text.toList = normalize second.text.toList) :
    (lineStep evaluator scope second).result
      = { (lineStep evaluator scope first).result with id := second.id } := by
  unfold lineStep
  rw [h]
  split
  · rfl
  · split
    · unfold assignmentStep
      split <;> rfl
    · unfold expressionStep
      split
      · rfl
      · split <;> rfl

/-- What a result says, whatever line it belongs to: the name assigned, the outcome, and how it is
shown. -/
def ResultLine.content (r : ResultLine) : Option String × Outcome × String :=
  (r.assigned, r.outcome, r.text)

theorem resultsFrom_alike {first second : List Line}
    (h : List.Forall₂ (fun l m => Alike l.text.toList m.text.toList) first second)
    (scope : Scope) : (resultsFrom evaluator scope first).map ResultLine.content
      = (resultsFrom evaluator scope second).map ResultLine.content := by
  induction h generalizing scope with
  | nil => rfl
  | @cons line other rest others hline _ ih =>
    have hresult := lineStep_of_normalize_eq evaluator scope (normalize_eq_of_alike hline)
    have hscope : scope.extend [(lineStep evaluator scope other).result]
        = scope.extend [(lineStep evaluator scope line).result] := by
      rw [hresult]
      rfl
    rw [resultsFrom_cons, resultsFrom_cons, List.map_cons, List.map_cons, hscope, ih, hresult]
    rfl

/-- **A sheet takes no notice of the case of letters, nor of the blanks around its lines.** A normal
form is its own normal form, and two sheets whose lines are alike, one by one, assign the same
names, have the same outcomes and are shown alike. -/
theorem recalculate_alike :
    (∀ text, normalize (normalize text) = normalize text)
      ∧ ∀ first second : List Line,
        List.Forall₂ (fun l m => Alike l.text.toList m.text.toList) first second →
          (recalculate evaluator first).map ResultLine.content
            = (recalculate evaluator second).map ResultLine.content :=
  ⟨normalize_normalize, fun _ _ h => resultsFrom_alike evaluator h ∅⟩

end

/-- A name in two cases, a final sigma in front of a wide blank, and one in front of a letter. -/
theorem recalculate_alike_sigma :
    let evaluator := Script.Program.empty.evaluate
    let first : List Line := [⟨1, "Total = 4"⟩, ⟨2, "2 * TOTAL"⟩, ⟨3, "aΣ"⟩, ⟨4, "ΑΣa"⟩]
    let second : List Line :=
      [⟨7, " tOTAL = 4 "⟩, ⟨5, "2 * total
"⟩, ⟨8, "AΣ　"⟩, ⟨6, " ΑΣA"⟩]
    List.Forall₂ (fun l m => Alike l.text.toList m.text.toList) first second
      ∧ (recalculate evaluator first).map ResultLine.text
        = ["total = 4", "8", "Invalid expression", "Invalid expression"]
      ∧ (recalculate evaluator first).map ResultLine.content
        = (recalculate evaluator second).map ResultLine.content := by
  intro evaluator first second
  have halike : List.Forall₂ (fun l m => Alike l.text.toList m.text.toList) first second := by
    decide +kernel
  exact ⟨halike, by decide +kernel, (recalculate_alike evaluator).2 first second halike⟩

end SumSheet
