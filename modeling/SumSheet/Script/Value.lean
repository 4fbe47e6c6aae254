/-
SumSheet.Script.Value — what expressions of scripts evaluate to.

A script knows more kinds of values than a sheet, which knows numbers
only. `Value.kind` names the kind of a value, and `Value.text` is the
value as a part of a string.
-/
import SumSheet.Number.Shortest
import SumSheet.Number.Whole

namespace SumSheet.Script

open Number

/-- A value. A record has its values in the order of its keys, and a function the arguments bound
to it, which come first where it is called. -/
inductive Value where
  | unit
  | bool (b : Bool)
  | int (n : Int)
  | float (x : Float)
  | text (s : String)
  | char (c : Char)
  | list (items : List Value)
  | record (keys : List String) (values : List Value)
  | function (name : String) (bound : List Value)
  | range (first last : Int) (through : Bool)

namespace Value

/-! ## §1 Kinds -/

/-- The name of the kind of a value. -/
def kind : Value → String
  | unit => "()"
  | bool _ => "bool"
  | int _ => "i64"
  | float _ => "f64"
  | text _ => "string"
  | char _ => "char"
  | list _ => "array"
  | record _ _ => "map"
  | function _ _ => "Fn"
  | range _ _ false => "core::ops::range::Range<i64>"
  | range _ _ true => "core::ops::range::RangeInclusive<i64>"

/-! ## §2 Equality -/

mutual

/-- The two values are equal. Numbers are equal across their kinds, and a character equals the
string of it alone; values of different kinds are otherwise different. -/
def same : Value → Value → Bool
  | .unit, .unit => true
  | .bool a, .bool b => a == b
  | .int a, .int b => a == b
  | .float a, .float b => a == b
  | .int a, .float b => ofInt a == b
  | .float a, .int b => a == ofInt b
  | .text a, .text b => a == b
  | .char a, .char b => a == b
  | .text a, .char b => a == String.singleton b
  | .char a, .text b => String.singleton a == b
  | .list a, .list b => sameAll a b
  | .record k a, .record l b => k == l && sameAll a b
  | .range a b t, .range c d u => a == c && b == d && t == u
  | _, _ => false

/-- The two lists have equal values at the same places. -/
def sameAll : List Value → List Value → Bool
  | [], [] => true
  | a :: as, b :: bs => same a b && sameAll as bs
  | _, _ => false

end

/-! ## §3 Text -/

/-- A whole number in decimal digits. -/
def intText (n : Int) : String :=
  let digits := String.ofList (wholeText n.natAbs)
  if n < 0 then "-" ++ digits else digits

mutual

/-- The value as it stands inside a list or a record. -/
def inner : Value → String
  | .unit => "()"
  | .bool b => if b then "true" else "false"
  | .int n => intText n
  | .float x => plainText x
  | .text s => "\"" ++ s ++ "\""
  | .char c => "'" ++ String.singleton c ++ "'"
  | .list items => "[" ++ ", ".intercalate (innerAll items) ++ "]"
  | .record keys values =>
    "#\x7b" ++ ", ".intercalate (List.zipWith (fun k v => "\"" ++ k ++ "\": " ++ v) keys
      (innerAll values)) ++ "\x7d"
  | .function name _ => "Fn(" ++ name ++ ")"
  | .range first last through =>
    intText first ++ (if through then "..=" else "..") ++ intText last

/-- The values as they stand inside a list or a record. -/
def innerAll : List Value → List String
  | [] => []
  | v :: vs => inner v :: innerAll vs

end

/-- The value as a part of a string. The unit value adds nothing to one. -/
def asText : Value → String
  | .unit => ""
  | .text s => s
  | .char c => String.singleton c
  | v => v.inner

end Value

end SumSheet.Script
