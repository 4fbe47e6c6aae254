/-
SumSheet.Script.Library — the functions that scripts call without
defining them.

A function is chosen by its name and by the kinds of its arguments. The
built-in functions of sheets come first; they take floats. The functions
here add what scripts know themselves: conversions between the kinds of
numbers, more of the hyperbolic and circular functions, tests, and the
size and the kind of a value.

`apply` looks a call up. A call that fits nothing fails with the name of
the function and the kinds of the arguments. `print` and `debug` are the
functions that write: `printed?` is the line they write.

Left out: what is done with lists, strings, records and bytes beyond
their size, single bits, conversions between texts and numbers, the
clock, and the place in the text that stands in front of a line of
`debug`. A call of such a function fails as one that nothing fits.
-/
import SumSheet.Script.Operation
import SumSheet.Builtin

namespace SumSheet.Script

open Number

namespace Library

/-! ## §1 Rules -/

/-- The whole part of a float, if it is in range; NaN counts as zero. The float next above the
range, which stands for its greatest number, counts as that. -/
def wholePart (x : Float) : Result :=
  match toInt? x with
  | some n =>
    if leastInt ≤ n && n ≤ greatestInt + 1 then .ok (.int (min n greatestInt))
    else .error (.notWhole x)
  | none => if x.isNaN then .ok (.int 0) else .error (.notWhole x)

/-- One with the sign of a whole number. -/
def intSign (n : Int) : Int :=
  if n < 0 then -1 else if 0 < n then 1 else 0

/-- The number of degrees in a radian. -/
def degreesPerRadian : Float := 57.29577951308232

/-- The number of radians in a degree. -/
def radiansPerDegree : Float := 0.017453292519943295

/-! ## §2 Functions by the kinds of their arguments -/

/-- Functions of nothing. -/
def constant? (name : String) : Option Value :=
  match name with
  | "PI" => some (.float 3.141592653589793)
  | "E" => some (.float 2.718281828459045)
  | _ => none

/-- Functions of a float that give a float. -/
def ofFloat? (name : String) : Option (Float → Float) :=
  match name with
  | "int" => some truncate
  | "ceiling" => some ceil
  | "fraction" => some fun x => x - truncate x
  | "sinh" => some Float.sinh
  | "cosh" => some Float.cosh
  | "tanh" => some Float.tanh
  | "asinh" => some Float.asinh
  | "acosh" => some Float.acosh
  | "atanh" => some Float.atanh
  | "to_degrees" => some (· * degreesPerRadian)
  | "to_radians" => some (· * radiansPerDegree)
  | _ => none

/-- Tests of a float. -/
def floatTest? (name : String) : Option (Float → Bool) :=
  match name with
  | "is_nan" => some Float.isNaN
  | "is_finite" => some Float.isFinite
  | "is_infinite" => some Float.isInf
  | "is_zero" => some (· == 0.0)
  | _ => none

/-- Functions of a whole number. -/
def ofInt? (name : String) (n : Int) : Option Result :=
  match name with
  | "to_int" => some (.ok (.int n))
  | "to_float" => some (.ok (.float (ofInt n)))
  | "abs" => some (checked n.natAbs)
  | "sign" => some (.ok (.int (intSign n)))
  | "is_zero" => some (.ok (.bool (n == 0)))
  | "is_odd" => some (.ok (.bool (n % 2 != 0)))
  | "is_even" => some (.ok (.bool (n % 2 == 0)))
  | _ => none

/-- Functions of two floats that give a float. -/
def ofFloats? (name : String) : Option (Float → Float → Float) :=
  match name with
  | "atan" => some Float.atan2
  | _ => none

/-- Of two whole numbers, the smaller or the larger. -/
def ofInts? (name : String) (a b : Int) : Option Int :=
  match name with
  | "min" => some (min a b)
  | "max" => some (max a b)
  | _ => none

/-- Of two numbers of different kinds, the smaller or the larger. -/
def ofMixed? (name : String) (x y : Float) : Option Float :=
  match name with
  | "min" => some (smaller x y)
  | "max" => some (larger x y)
  | _ => none

/-- The number of characters, items or fields. -/
def size? : Value → Option Nat
  | .text s => some s.length
  | .list items => some items.length
  | .record keys _ => some keys.length
  | _ => none

/-! ## §3 Calls -/

/-- A call with one argument, apart from the built-in functions of sheets. -/
def ofOne? (name : String) (v : Value) : Option Result :=
  match name with
  | "type_of" => some (.ok (.text v.kind))
  | "len" => (size? v).map fun n => .ok (.int n)
  | _ =>
    match v with
    | .float x =>
      if name == "to_int" then some (wholePart x)
      else
        match ofFloat? name with
        | some f => some (.ok (.float (f x)))
        | none => (floatTest? name).map fun test => .ok (.bool (test x))
    | .int n => ofInt? name n
    | _ => none

/-- A call with two arguments, apart from the built-in functions of sheets. -/
def ofTwo? (name : String) : Value → Value → Option Value
  | .float x, .float y => (ofFloats? name).map fun f => .float (f x y)
  | .int a, .int b => (ofInts? name a b).map .int
  | .int a, .float y => (ofMixed? name (ofInt a) y).map .float
  | .float x, .int b => (ofMixed? name x (ofInt b)).map .float
  | _, _ => none

/-- A call of a built-in function of sheets. -/
def ofSheet? (name : String) (args : List Value) : Option Value :=
  match args with
  | [.float x] => ((builtin? name).bind (·.unary)).map fun f => .float (f x)
  | [.float x, .float y] => ((builtin? name).bind (·.binary)).map fun f => .float (f x y)
  | _ => none

/-- The function that fits a call, applied. -/
def matching? (name : String) (args : List Value) : Option Result :=
  match ofSheet? name args with
  | some v => some (.ok v)
  | none =>
    match args with
    | [] => (constant? name).map .ok
    | [v] => ofOne? name v
    | [v, w] => (ofTwo? name v w).map .ok
    | _ => none

/-- The value of a call. -/
def apply (name : String) (args : List Value) : Result :=
  (matching? name args).getD (.error (.unknownFunction name (args.map Value.kind)))

/-- The line that a call of `print` or `debug` writes. -/
def printed? (name : String) (args : List Value) : Option String :=
  match name, args with
  | "print", [] | "debug", [] => some ""
  | "print", [v] => some v.asText
  | "debug", [v] => some v.inner
  | _, _ => none

end Library

end SumSheet.Script
