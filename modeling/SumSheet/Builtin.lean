/-
SumSheet.Builtin — the functions and constants that every expression of
a sheet knows.

All of them are about floats. A function may be known with one argument,
with two, or with both numbers of them. `builtins` is the table in the
order in which help lists it, and `constants` the one of the named
numbers.
-/
import SumSheet.Number.Power

namespace SumSheet

open Number

/-! ## §1 Rules -/

/-- One with the sign of `x`; zero and NaN stay as they are. -/
def signOf (x : Float) : Float :=
  if x > 0.0 then 1.0 else if x < 0.0 then -1.0 else x

/-- The smaller of two values. NaN gives way to the other one. -/
def smaller (x y : Float) : Float :=
  if x.isNaN then y else if y < x then y else x

/-- The larger of two values. NaN gives way to the other one. -/
def larger (x y : Float) : Float :=
  if x.isNaN then y else if x < y then y else x

/-- The logarithm of `x` to a base. -/
def logTo (x base : Float) : Float :=
  Float.log x / Float.log base

/-! ## §2 Functions -/

/-- A function that expressions can call, with one argument or with two. -/
structure Builtin where
  name : String
  description : String
  unary : Option (Float → Float)
  binary : Option (Float → Float → Float)

/-- Every function, in the order of the help text. -/
def builtins : List Builtin := [
  ⟨"sqrt", "Square root", some Float.sqrt, none⟩,
  ⟨"cbrt", "Cube root", some Float.cbrt, none⟩,
  ⟨"abs", "Absolute value", some Float.abs, none⟩,
  ⟨"exp", "e raised to a power", some Float.exp, none⟩,
  ⟨"ln", "Natural logarithm", some Float.log, none⟩,
  ⟨"log", "Natural logarithm, or log(x, base)", some Float.log, some logTo⟩,
  ⟨"log10", "Base-10 logarithm", some Float.log10, none⟩,
  ⟨"log2", "Base-2 logarithm", some Float.log2, none⟩,
  ⟨"pow", "pow(x, y) = x ^ y", none, some Float.pow⟩,
  ⟨"floor", "Round down", some floor, none⟩,
  ⟨"ceil", "Round up", some ceil, none⟩,
  ⟨"round", "Round to nearest, or round(x, digits)", some round, some roundTo⟩,
  ⟨"sin", "Sine (radians)", some Float.sin, none⟩,
  ⟨"cos", "Cosine (radians)", some Float.cos, none⟩,
  ⟨"tan", "Tangent (radians)", some Float.tan, none⟩,
  ⟨"asin", "Arcsine", some Float.asin, none⟩,
  ⟨"acos", "Arccosine", some Float.acos, none⟩,
  ⟨"atan", "Arctangent", some Float.atan, none⟩,
  ⟨"atan2", "atan2(y, x)", none, some Float.atan2⟩,
  ⟨"hypot", "hypot(x, y) = sqrt(x^2 + y^2)", none, some hypotenuse⟩,
  ⟨"mod", "mod(x, y) = remainder of x / y", none, some remainder⟩,
  ⟨"sign", "-1, 0 or 1", some signOf, none⟩,
  ⟨"min", "Smaller of two values", none, some smaller⟩,
  ⟨"max", "Larger of two values", none, some larger⟩]

/-- The function with this name. -/
def builtin? (name : String) : Option Builtin :=
  builtins.find? (·.name == name)

/-! ## §3 Constants -/

/-- Every named number. -/
def constants : List (String × Float) := [
  ("pi", 3.141592653589793),
  ("e", 2.718281828459045),
  ("tau", 6.283185307179586),
  ("phi", 1.618033988749895)]

end SumSheet
