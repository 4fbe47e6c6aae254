/-
SumSheet.Proofs.LastBindings — a scope is the map of the last bindings.

A scope is made by binding names, one after the other, each of them
lower-cased on its way in. What it holds in the end is said of that list
of bindings alone, by `IsLast`: under a lower-case name stands the value
of the last binding whose name is lowered to it.

Lower-casing is applied to whole names. It is not injective, and what it
makes of a sigma depends on what stands around it, so two names are the
same variable exactly if their lower-case forms are equal, and no
comparison letter by letter takes the place of that. Nothing else is
asked of it, but for one thing: a lower-case name is its own lower-case
form, so a scope finds what it lists under the name that it lists.

  §1 Last bindings — of a list to which one more is added.
  §2 Scopes        — hold the last binding of each name, by induction on
                     the bindings, the last of them first.
  §3 Order         — neighbours with different names may change places.
-/
import SumSheet.Proofs.LetterCase

namespace SumSheet.Scope

open Text

/-! ## §1 Last bindings -/

/-- The last of the bindings whose name is lowered to `key` is to this value. -/
def IsLast (bindings : List (String × Float)) (key : String) (x : Float) : Prop :=
  ∃ before name behind, bindings = before ++ (name, x) :: behind ∧ lower name = key
    ∧ ∀ b ∈ behind, lower b.1 ≠ key

section

variable {bindings before behind : List (String × Float)} {a b : String × Float} {key : String}
  {x : Float}

theorem isLast_nil : ¬ IsLast [] key x := by
  rintro ⟨before, name, behind, hnil, _⟩
  simp at hnil

/-- One more binding is the last of its name, and of no other. -/
theorem isLast_concat_iff :
    IsLast (bindings ++ [b]) key x
      ↔ if lower b.1 = key then b.2 = x else IsLast bindings key x := by
  constructor
  · rintro ⟨before, name, behind, heq, hname, hbehind⟩
    rcases List.eq_nil_or_concat behind with rfl | ⟨front, last, rfl⟩
    · obtain ⟨-, hlast⟩ := List.append_inj' heq rfl
      obtain rfl := List.singleton_inj.mp hlast
      rw [if_pos hname]
    · rw [List.concat_eq_append] at heq hbehind
      rw [← List.cons_append, ← List.append_assoc] at heq
      obtain ⟨rfl, hlast⟩ := List.append_inj' heq rfl
      obtain rfl := List.singleton_inj.mp hlast
      rw [if_neg (hbehind b (by simp))]
      exact ⟨before, name, front, rfl, hname, fun c hc => hbehind c (by simp [hc])⟩
  · split
    · rintro rfl
      exact ⟨bindings, b.1, [], rfl, ‹_›, nofun⟩
    · rintro ⟨before, name, behind, rfl, hname, hbehind⟩
      refine ⟨before, name, behind ++ [b], by simp, hname, fun c hc => ?_⟩
      rcases List.mem_append.mp hc with hc | hc
      · exact hbehind c hc
      · rwa [List.mem_singleton.mp hc]

/-- A name that is bound at all has a last binding. -/
theorem exists_isLast_iff :
    (∃ x, IsLast bindings key x) ↔ key ∈ bindings.map fun b => lower b.1 := by
  induction bindings using List.reverseRecOn with
  | nil => simp [isLast_nil]
  | append_singleton bindings b ih =>
    simp only [isLast_concat_iff, List.map_append, List.map_cons, List.map_nil, List.mem_append,
      List.mem_singleton]
    by_cases hb : lower b.1 = key
    · simp [hb]
    · simp [hb, Ne.symm hb, ih]

/-- Whatever stands before and behind them, two bindings of different names may change places. -/
theorem isLast_swap_iff (hother : lower a.1 ≠ lower b.1) :
    IsLast (before ++ a :: b :: behind) key x ↔ IsLast (before ++ b :: a :: behind) key x := by
  induction behind using List.reverseRecOn with
  | nil =>
    have hsplit (c d : String × Float) : before ++ [c, d] = (before ++ [c]) ++ [d] := by simp
    rw [hsplit, hsplit]
    simp only [isLast_concat_iff]
    by_cases ha : lower a.1 = key
    · rw [if_pos ha, if_pos ha, if_neg (ha ▸ hother.symm)]
    · rw [if_neg ha, if_neg ha]
  | append_singleton behind c ih =>
    have hsplit (d e : String × Float) :
        before ++ d :: e :: (behind ++ [c]) = (before ++ d :: e :: behind) ++ [c] := by simp
    rw [hsplit, hsplit, isLast_concat_iff, isLast_concat_iff, ih]

end

/-! ## §2 Scopes -/

/-- The scope is the map that holds, under each lower-case name, the value of its last binding, and
every operation answers from that map. -/
structure HoldsLast (scope : Scope) (bindings : List (String × Float)) : Prop where
  get?_iff (name : String) (x : Float) :
    scope.get? name = some x ↔ IsLast bindings (lower name) x
  get?_none_iff (name : String) :
    scope.get? name = none ↔ ∀ b ∈ bindings, lower b.1 ≠ lower name
  contains_iff (name : String) : scope.contains name = true ↔ ∃ x, scope.get? name = some x
  size_eq : scope.size = (bindings.map fun b => lower b.1).toFinset.card
  isEmpty_iff : scope.isEmpty = true ↔ scope.size = 0
  nodup : (scope.toList.map (·.1)).Nodup
  mem_iff (key : String) (x : Float) : (key, x) ∈ scope.toList ↔ IsLast bindings key x
  /-- What is listed is found under the name that is listed. -/
  get?_of_mem (b : String × Float) : b ∈ scope.toList → scope.get? b.1 = some b.2

section

variable {bindings : List (String × Float)} {key : String} {x : Float}

theorem find?_ofList :
    find? (ofList bindings).bindings key = some x ↔ IsLast bindings key x := by
  induction bindings using List.reverseRecOn with
  | nil => exact iff_of_false nofun isLast_nil
  | append_singleton bindings b ih =>
    rw [ofList_concat, set, find?_put, isLast_concat_iff]
    by_cases hb : lower b.1 = key
    · rw [if_pos hb.symm, if_pos hb, Option.some_inj]
    · rw [if_neg (Ne.symm hb), if_neg hb, ih]

theorem mem_ofList : (key, x) ∈ (ofList bindings).toList ↔ IsLast bindings key x :=
  (mem_iff_find? (nodup_ofList bindings)).trans find?_ofList

theorem mem_names_ofList :
    key ∈ (ofList bindings).toList.map (·.1) ↔ key ∈ bindings.map fun b => lower b.1 := by
  rw [← exists_isLast_iff]
  simp [← mem_ofList]

/-- As many names are bound as there are lower-case forms. -/
theorem size_ofList : (ofList bindings).size = (bindings.map fun b => lower b.1).toFinset.card := by
  have hnames : ((ofList bindings).toList.map (·.1)).toFinset
      = (bindings.map fun b => lower b.1).toFinset := by
    ext key
    rw [List.mem_toFinset, List.mem_toFinset, mem_names_ofList]
  rw [← hnames, List.toFinset_card_of_nodup (nodup_ofList bindings), List.length_map]
  rfl

theorem holdsLast_ofList (bindings : List (String × Float)) :
    (ofList bindings).HoldsLast bindings where
  get?_iff _ _ := find?_ofList
  get?_none_iff name := by
    rw [Option.eq_none_iff_forall_ne_some]
    simp only [get?, Ne, find?_ofList, ← not_exists, exists_isLast_iff, List.mem_map]
    simp
  contains_iff name := by rw [contains, Option.isSome_iff_exists]
  size_eq := size_ofList
  isEmpty_iff := List.isEmpty_iff_length_eq_zero
  nodup := nodup_ofList bindings
  mem_iff _ _ := mem_ofList
  get?_of_mem b hmem := by
    have hlast : IsLast bindings b.1 b.2 := mem_ofList.mp hmem
    obtain ⟨_, name, _, _, hname, _⟩ := id hlast
    rw [get?, find?_ofList, ← hname, lower_lower, hname]
    exact hlast

end

/-! ## §3 Order -/

/-- The same bindings in an order that comes about by neighbours changing places, where no two of
them have names with the same lower-case form. -/
inductive Reordered (bindings : List (String × Float)) : List (String × Float) → Prop
  | same : Reordered bindings bindings
  | swap {before behind : List (String × Float)} {a b : String × Float}
    (h : Reordered bindings (before ++ a :: b :: behind)) (hother : lower a.1 ≠ lower b.1) :
    Reordered bindings (before ++ b :: a :: behind)

theorem Reordered.isLast_iff {bindings other : List (String × Float)} {key : String} {x : Float}
    (h : Reordered bindings other) : IsLast bindings key x ↔ IsLast other key x := by
  induction h with
  | same => exact Iff.rfl
  | swap _ hother ih => exact ih.trans (isLast_swap_iff hother)

/-- **A scope is the last-write-wins map over lower-case names.** It holds under each name the value
of its last binding, in whatever case that was made, and nothing else. Bindings that change places
with neighbours of other names leave the same bindings in the scope. -/
theorem ofList_last (bindings : List (String × Float)) :
    (ofList bindings).HoldsLast bindings
      ∧ ∀ other, Reordered bindings other →
        (ofList bindings).toList.Perm (ofList other).toList
          ∧ ∀ name, (ofList bindings).get? name = (ofList other).get? name := by
  refine ⟨holdsLast_ofList bindings, fun other h => ⟨?_, fun name => ?_⟩⟩
  · refine (List.perm_ext_iff_of_nodup (nodup_ofList _).of_map (nodup_ofList _).of_map).mpr ?_
    rintro ⟨key, x⟩
    rw [mem_ofList, mem_ofList, h.isLast_iff]
  · refine Option.ext fun x => ?_
    rw [get?, get?, find?_ofList, find?_ofList, h.isLast_iff]

/-- A sigma at the end of a word and one before another letter, a dotted capital I, and a name that
is bound again in another case behind its neighbour. -/
theorem ofList_last_sigma :
    let bindings : List (String × Float) := [("ΟΔΟΣ", 1), ("İ", 2), ("ΟΔΟΣΑ", 3), ("οδος", 4)]
    let other : List (String × Float) := [("İ", 2), ("ΟΔΟΣ", 1), ("ΟΔΟΣΑ", 3), ("οδος", 4)]
    Reordered bindings other
      ∧ (ofList bindings).get? "ΟΔΟς" = some 4 ∧ (ofList bindings).size = 3
      ∧ (ofList bindings).get? "ΟΔΟΣ" = (ofList other).get? "ΟΔΟΣ"
      ∧ (ofList bindings).toList.Perm (ofList other).toList := by
  intro bindings other
  have hother : lower "ΟΔΟΣ" ≠ lower "İ" := by decide +kernel
  have hreordered : Reordered bindings other :=
    .swap (show Reordered bindings ([] ++ _) from .same) hother
  obtain ⟨hholds, horder⟩ := ofList_last bindings
  have hlast : IsLast bindings (lower "ΟΔΟς") 4 := by
    refine ⟨bindings.take 3, "οδος", [], rfl, ?_, nofun⟩
    decide +kernel
  have hsize : (bindings.map fun b => lower b.1).toFinset.card = 3 := by decide +kernel
  obtain ⟨hperm, hget⟩ := horder other hreordered
  exact ⟨hreordered, (hholds.get?_iff _ _).mpr hlast, hholds.size_eq.trans hsize, hget _, hperm⟩

end SumSheet.Scope
