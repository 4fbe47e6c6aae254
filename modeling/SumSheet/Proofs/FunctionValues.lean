/-
SumSheet.Proofs.FunctionValues — which functions can be called through a
value.

A function value carries a name, and calling it is a call by that name.
It may be an item of a list, a field of a record, or an argument bound to
another function value. `Value.Within names` says that all of them have
names among `names`.

Operators, properties, indices and the functions of the library make no
function value: what they give is made of what they are given
(`within_joined?` has the only cases in which anything is handed on). Nor
do they report that a variable is missing. `Tame` says both of a result,
so that each function is looked through once.

  §1 Values    — the function values in a value.
  §2 Operators — of numbers, texts, lists and records.
  §3 Foresight — what is known before anything is evaluated.
  §4 Chains    — properties and indices.
  §5 Library   — the functions that a script does not define.
-/
import SumSheet.Script.Eval

namespace SumSheet.Script

/-! ## §1 Values -/

mutual

/-- Every function value in it has one of these names. -/
def Value.Within (names : String → Prop) : Value → Prop
  | .list items => AllWithin names items
  | .record _ values => AllWithin names values
  | .function name bound => names name ∧ AllWithin names bound
  | _ => True

/-- So has every function value in these. -/
def AllWithin (names : String → Prop) : List Value → Prop
  | [] => True
  | v :: rest => v.Within names ∧ AllWithin names rest

end

section

variable {names : String → Prop}

theorem allWithin_iff {values : List Value} :
    AllWithin names values ↔ ∀ v ∈ values, v.Within names := by
  induction values with
  | nil => simp [AllWithin]
  | cons v rest ih => simp [AllWithin, ih]

theorem allWithin_append {values values' : List Value} (h : AllWithin names values)
    (h' : AllWithin names values') : AllWithin names (values ++ values') := by
  rw [allWithin_iff] at h h' ⊢
  exact List.forall_mem_append.mpr ⟨h, h'⟩

mutual

/-- Where every name may occur, nothing is asked of a value. -/
theorem Value.within_true : (v : Value) → v.Within fun _ => True
  | .list items => allWithin_true items
  | .record _ values => allWithin_true values
  | .function _ bound => ⟨trivial, allWithin_true bound⟩
  | .unit | .bool _ | .int _ | .float _ | .text _ | .char _ | .range _ _ _ => trivial

theorem allWithin_true : (values : List Value) → AllWithin (fun _ => True) values
  | [] => trivial
  | v :: rest => ⟨v.within_true, allWithin_true rest⟩

end

/-- A value with no function among its parts but those of these names, or a failure that is not a
missing variable. -/
def Tame (names : String → Prop) : Result → Prop
  | .ok v => v.Within names
  | .error cause => ∀ name, cause ≠ .unknownVariable name

/-! ## §2 Operators -/

theorem tame_checked (n : Int) : Tame names (checked n) := by
  unfold checked
  split
  · trivial
  · nofun

theorem tame_intPower (base exponent : Int) : Tame names (intPower base exponent) := by
  unfold intPower
  split
  · nofun
  split
  · nofun
  split
  · exact tame_checked _
  split
  · nofun
  · exact tame_checked _

theorem tame_intOperation {op : BinaryOp} {a b : Int} {r : Result}
    (h : intOperation op a b = some r) : Tame names r := by
  cases op
  case divide =>
    cases h
    split
    · nofun
    · exact tame_checked _
  case modulo =>
    cases h
    split
    · nofun
    split
    · nofun
    · exact tame_checked _
  case power =>
    cases h
    exact tame_intPower a b
  all_goals first
    | cases h; exact tame_checked _
    | cases h; trivial
    | cases h

theorem tame_arithmetic? {op : BinaryOp} {v w : Value} {r : Result}
    (h : arithmetic? op v w = some r) : Tame names r := by
  unfold arithmetic? at h
  split at h
  case h_4 => exact tame_intOperation h
  case h_5 => cases h
  all_goals
    obtain ⟨x, -, rfl⟩ := Option.map_eq_some_iff.mp h
    trivial

/-- Two records together have the values of both. -/
theorem within_mergeRecords {keys keys' : List String} {values values' : List Value}
    (h : AllWithin names values) (h' : AllWithin names values') :
    (mergeRecords keys values keys' values').Within names := by
  refine allWithin_append (allWithin_iff.mpr fun v hv => ?_) h'
  obtain ⟨field, hfield, rfl⟩ := List.mem_map.mp hv
  exact allWithin_iff.mp h _ (List.of_mem_zip (List.mem_filter.mp hfield).1).2

/-- What operators make of lists and records has their parts; all else is a text or a truth
value. -/
theorem within_joined? {op : BinaryOp} {v w u : Value} (hv : v.Within names) (hw : w.Within names)
    (h : joined? op v w = some u) : u.Within names := by
  unfold joined? at h
  split at h
  case h_3 =>
    split at h
    · cases h
      exact allWithin_append hv hw
    · cases h
  case h_4 =>
    split at h
    · cases h
      exact within_mergeRecords hv hw
    · cases h
  case h_8 => cases h
  all_goals
    split at h
    all_goals first
      | cases h; trivial
      | cases h

theorem tame_binary {op : BinaryOp} {v w : Value} (hv : v.Within names) (hw : w.Within names) :
    Tame names (binary op v w) := by
  unfold binary
  split
  · exact tame_arithmetic? ‹_›
  split
  · exact within_joined? hv hw ‹_›
  split
  · trivial
  · nofun

theorem tame_unary (op : UnaryOp) (v : Value) : Tame names (unary op v) := by
  unfold unary
  split
  · exact tame_checked _
  all_goals first
    | trivial
    | nofun

/-! ## §3 Foresight -/

theorem within_foreseen? {op : BinaryOp} {left right : Option Value}
    (hleft : ∀ v ∈ left, v.Within names) (hright : ∀ w ∈ right, w.Within names) :
    ∀ u ∈ foreseen? op left right, u.Within names := by
  intro u hu
  unfold foreseen? at hu
  split at hu
  · rename_i v w
    have htame : Tame names (binary op v w) := tame_binary (hleft v rfl) (hright w rfl)
    cases hbinary : binary op v w with
    | error cause => simp [hbinary, Except.toOption] at hu
    | ok result =>
      rw [hbinary] at hu htame
      cases hu
      exact htame
  · cases hu

/-- What is known beforehand is a literal, or made of constants. -/
theorem within_fixed? {bindings : List Binding} (h : ∀ b ∈ bindings, b.value.Within names) :
    (e : Expr) → ∀ v ∈ e.fixed? bindings, v.Within names
  | .variable name => by
    intro v hv
    obtain ⟨b, hb, hv⟩ := Option.bind_eq_some_iff.mp hv
    split at hv
    · cases hv
      exact h b (List.mem_of_find?_eq_some hb)
    · cases hv
  | .binary op left right => within_foreseen? (within_fixed? h left) (within_fixed? h right)
  | .both left right => by
    intro v hv
    rw [Expr.fixed?] at hv
    split at hv
    · exact within_fixed? h right v hv
    · cases hv
      trivial
    · exact within_fixed? h left v hv
    · cases hv
  | .either left right => by
    intro v hv
    rw [Expr.fixed?] at hv
    split at hv
    · exact within_fixed? h right v hv
    · cases hv
      trivial
    · exact within_fixed? h left v hv
    · cases hv
  | .unit | .bool _ | .int _ | .float _ | .text _ | .char _ => by
    rintro v ⟨⟩
    trivial
  | .closure | .this | .unary _ _ | .orElse _ _ | .call _ _ | .inPlace _ _ | .list _
  | .record _ _ | .chain _ _ | .choose _ _ _ | .block _ => nofun

/-! ## §4 Chains -/

theorem within_fieldOf {keys : List String} {values : List Value} (h : AllWithin names values)
    (key : String) : (fieldOf keys values key).Within names := by
  unfold fieldOf
  cases hfound : (keys.zip values).find? (·.1 == key) with
  | none => trivial
  | some field =>
    exact allWithin_iff.mp h _ (List.of_mem_zip (List.mem_of_find?_eq_some hfound)).2

theorem within_fieldFunction? {v : Value} {name function : String} {bound : List Value}
    (hv : v.Within names) (h : fieldFunction? name v = some (function, bound)) :
    names function ∧ AllWithin names bound := by
  unfold fieldFunction? at h
  split at h
  · rename_i keys values
    have hfield : (fieldOf keys values name).Within names := within_fieldOf hv name
    split at h
    · rename_i heq
      cases h
      rwa [heq] at hfield
    · cases h
  · cases h

theorem tame_propertyOf (name : String) {v : Value} (hv : v.Within names) :
    Tame names (propertyOf name v) := by
  unfold propertyOf
  split
  · exact within_fieldOf hv name
  split
  · trivial
  · nofun

theorem tame_itemOf {v : Value} (hv : v.Within names) (i : Value) :
    Tame names (itemOf v i) := by
  unfold itemOf
  split
  · split
    · rename_i hitem
      obtain ⟨k, -, hk⟩ := Option.bind_eq_some_iff.mp hitem
      exact allWithin_iff.mp hv _ (List.mem_of_getElem? hk)
    · nofun
  · split
    · trivial
    · nofun
  · exact within_fieldOf hv _
  · split
    · trivial
    · nofun
  · nofun

/-! ## §5 Library -/

namespace Library

theorem tame_wholePart (x : Float) : Tame names (wholePart x) := by
  unfold wholePart
  split
  all_goals
    split
    · trivial
    · nofun

theorem tame_ofInt? {name : String} {n : Int} {r : Result} (h : ofInt? name n = some r) :
    Tame names r := by
  unfold ofInt? at h
  split at h
  case h_3 =>
    cases h
    exact tame_checked _
  case h_8 => cases h
  all_goals
    cases h
    trivial

theorem tame_ofOne? {name : String} {v : Value} {r : Result} (h : ofOne? name v = some r) :
    Tame names r := by
  unfold ofOne? at h
  split at h
  · cases h
    trivial
  · obtain ⟨n, -, rfl⟩ := Option.map_eq_some_iff.mp h
    trivial
  split at h
  · split at h
    · cases h
      exact tame_wholePart _
    split at h
    · cases h
      trivial
    · obtain ⟨test, -, rfl⟩ := Option.map_eq_some_iff.mp h
      trivial
  · exact tame_ofInt? h
  · cases h

theorem within_constant? {name : String} {v : Value} (h : constant? name = some v) :
    v.Within names := by
  unfold constant? at h
  split at h
  case h_3 => cases h
  all_goals
    cases h
    trivial

theorem within_ofTwo? {name : String} {v w u : Value} (h : ofTwo? name v w = some u) :
    u.Within names := by
  unfold ofTwo? at h
  split at h
  case h_5 => cases h
  all_goals
    obtain ⟨x, -, rfl⟩ := Option.map_eq_some_iff.mp h
    trivial

theorem within_ofSheet? {name : String} {args : List Value} {u : Value}
    (h : ofSheet? name args = some u) : u.Within names := by
  unfold ofSheet? at h
  split at h
  case h_3 => cases h
  all_goals
    obtain ⟨f, -, rfl⟩ := Option.map_eq_some_iff.mp h
    trivial

theorem tame_matching? {name : String} {args : List Value} {r : Result}
    (h : matching? name args = some r) : Tame names r := by
  unfold matching? at h
  split at h
  · cases h
    exact within_ofSheet? (by assumption)
  split at h
  · obtain ⟨v, hv, rfl⟩ := Option.map_eq_some_iff.mp h
    exact within_constant? hv
  · exact tame_ofOne? h
  · obtain ⟨v, hv, rfl⟩ := Option.map_eq_some_iff.mp h
    exact within_ofTwo? hv
  · cases h

theorem tame_apply (name : String) (args : List Value) : Tame names (apply name args) := by
  unfold apply
  cases h : matching? name args with
  | none => nofun
  | some r => exact tame_matching? h

end Library

end

end SumSheet.Script
