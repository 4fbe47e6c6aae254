/-
SumSheet.Scope — the variables bound so far.

A scope is a finite map from names to values. Names are told apart
without regard to case: every operation lower-cases the name it is
given. Binding a name again replaces its value.

The bindings are kept in the order in which the names were first bound.
Nothing that is computed from a scope depends on that order.
-/
import SumSheet.Text.LowerCase

namespace SumSheet

open Text

/-- Bindings of lower-case names, at most one for each. -/
structure Scope where
  bindings : List (String × Float)

namespace Scope

/-- Nothing is bound. -/
def empty : Scope := ⟨[]⟩

instance : EmptyCollection Scope := ⟨empty⟩

/-- The value of the first binding of `name`. -/
def find? (bindings : List (String × Float)) (name : String) : Option Float :=
  (bindings.find? (·.1 == name)).map (·.2)

/-- The bindings with the value of `name` replaced, or a new one at the end. -/
def put (name : String) (value : Float) : List (String × Float) → List (String × Float)
  | [] => [(name, value)]
  | b :: rest => if b.1 == name then (name, value) :: rest else b :: put name value rest

/-- The value bound to a name, in any case. -/
def get? (s : Scope) (name : String) : Option Float :=
  find? s.bindings (lower name)

/-- Binds a name, in any case, to a value. -/
def set (s : Scope) (name : String) (value : Float) : Scope :=
  ⟨put (lower name) value s.bindings⟩

/-- The name is bound. -/
def contains (s : Scope) (name : String) : Bool :=
  (s.get? name).isSome

/-- The number of names bound. -/
def size (s : Scope) : Nat :=
  s.bindings.length

/-- No name is bound. -/
def isEmpty (s : Scope) : Bool :=
  s.bindings.isEmpty

/-- Each bound name with its value. -/
def toList (s : Scope) : List (String × Float) :=
  s.bindings

/-- The scope after a list of bindings, in their order. -/
def ofList (bindings : List (String × Float)) : Scope :=
  bindings.foldl (fun s b => s.set b.1 b.2) ∅

end Scope

end SumSheet
