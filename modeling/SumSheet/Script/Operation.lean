/-
SumSheet.Script.Operation — the operators of scripts on values.

  §1 Whole numbers — arithmetic that fails where the result is out of range.
  §2 Floats        — arithmetic that never fails.
  §3 Comparison    — values of different kinds compare, but are never in order.
  §4 All values    — `unary` and `binary`.

Where a whole number meets a float, it becomes one.
-/
import SumSheet.Script.Term
import SumSheet.Script.Failure
import SumSheet.Script.Lexer
import SumSheet.Number.Power

namespace SumSheet.Script

open Number

/-- A value, or the cause why there is none. -/
abbrev Result := Except Failure Value

/-! ## §1 Whole numbers -/

/-- A whole number, if it is in range. -/
def checked (n : Int) : Result :=
  if inIntRange n then .ok (.int n) else .error .overflow

/-- The greatest exponent of a power of whole numbers. -/
def greatestExponent : Int := 4294967295

/-- The power of whole numbers. Only the bases 0, 1 and -1 have powers in range with an exponent of
64 or more. -/
def intPower (base exponent : Int) : Result :=
  if exponent < 0 then .error .negativePower
  else if greatestExponent < exponent then .error .overflow
  else if base.natAbs ≤ 1 then
    checked (Int.pow base (if exponent ≤ 1 then exponent.toNat else 2 + exponent.toNat % 2))
  else if 64 ≤ exponent then .error .overflow
  else checked (Int.pow base exponent.toNat)

/-- The whole number as a word of 64 bits. -/
def toWord (n : Int) : BitVec 64 := BitVec.ofInt 64 n

/-- The word shifted up, or down if the number of bits is negative. The sign fills in from
above. -/
def shift (n bits : Int) : Int :=
  if 0 ≤ bits then
    if bits < 64 then (toWord n <<< bits.toNat).toInt else 0
  else if -64 < bits then n >>> (-bits).toNat
  else if n < 0 then -1 else 0

/-- An operator on two whole numbers; `none` if it is a comparison. -/
def intOperation (op : BinaryOp) (a b : Int) : Option Result :=
  match op with
  | .add => some (checked (a + b))
  | .subtract => some (checked (a - b))
  | .multiply => some (checked (a * b))
  | .divide => some (if b = 0 then .error .divisionByZero else checked (a.tdiv b))
  | .modulo =>
    some (if b = 0 then .error .divisionByZero
      else if a = leastInt ∧ b = -1 then .error .overflow
      else checked (a.tmod b))
  | .power => some (intPower a b)
  | .shiftLeft => some (checked (shift a b))
  | .shiftRight => some (checked (shift a (-b)))
  | .bitAnd => some (.ok (.int (toWord a &&& toWord b).toInt))
  | .bitOr => some (.ok (.int (toWord a ||| toWord b).toInt))
  | .bitXor => some (.ok (.int (toWord a ^^^ toWord b).toInt))
  | .range => some (.ok (.range a b false))
  | .rangeThrough => some (.ok (.range a b true))
  | _ => none

/-! ## §2 Floats -/

/-- An operator on two floats; `none` if it is not arithmetic. -/
def floatOperation (op : BinaryOp) (x y : Float) : Option Float :=
  match op with
  | .add => some (x + y)
  | .subtract => some (x - y)
  | .multiply => some (x * y)
  | .divide => some (x / y)
  | .modulo => some (remainder x y)
  | .power => some (Float.pow x y)
  | _ => none

/-! ## §3 Comparison -/

/-- What a comparison says of two values of which it is known whether the first is less, equal or
greater; of two NaN none of it holds. -/
def compareBy (op : BinaryOp) (less equal greater : Bool) : Option Bool :=
  match op with
  | .equal => some equal
  | .notEqual => some (!equal)
  | .less => some less
  | .lessEqual => some (less || equal)
  | .greater => some greater
  | .greaterEqual => some (greater || equal)
  | _ => none

/-- What a comparison says of two values of different kinds, or of two unit values, which are
`equal` but not in order. -/
def compareUnordered (op : BinaryOp) (equal : Bool) : Option Bool :=
  match op with
  | .lessEqual | .greaterEqual => some false
  | op => compareBy op false equal false

/-- The comparison of two values of an ordered kind. -/
def compareOrdered {α : Type} [LT α] [DecidableLT α] [BEq α] (op : BinaryOp) (a b : α) :
    Option Bool :=
  compareBy op (decide (a < b)) (a == b) (decide (b < a))

/-- What a comparison says of two values; `none` if the operator is not a comparison or does not
know their kind. -/
def compare? (op : BinaryOp) : Value → Value → Option Bool
  | .unit, .unit => compareUnordered op true
  | .bool a, .bool b => compareOrdered op a.toNat b.toNat
  | .int a, .int b => compareOrdered op a b
  | .float x, .float y => compareOrdered op x y
  | .int a, .float y => compareOrdered op (ofInt a) y
  | .float x, .int b => compareOrdered op x (ofInt b)
  | .text s, .text t => compareOrdered op s t
  | .char c, .char d => compareOrdered op c d
  | .text s, .char d => compareOrdered op s (String.singleton d)
  | .char c, .text t => compareOrdered op (String.singleton c) t
  | .list a, .list b => equality (Value.sameAll a b)
  | .record k a, .record l b => equality (k == l && Value.sameAll a b)
  | .range a b t, .range c d u => equality (a == c && b == d && t == u)
  | .function _ _, .function _ _ => none
  | v, w => if v.kind == w.kind then none else compareUnordered op false
where
  /-- Values that are equal or not, but have no order. -/
  equality (equal : Bool) : Option Bool :=
    match op with
    | .equal => some equal
    | .notEqual => some (!equal)
    | _ => none

/-! ## §4 All values -/

/-- The sign of an operator. -/
def BinaryOp.sign : BinaryOp → String
  | add => "+" | subtract => "-" | multiply => "*" | divide => "/" | modulo => "%"
  | power => "**" | shiftLeft => "<<" | shiftRight => ">>"
  | bitAnd => "&" | bitOr => "|" | bitXor => "^"
  | equal => "==" | notEqual => "!=" | less => "<" | lessEqual => "<="
  | greater => ">" | greaterEqual => ">=" | range => ".." | rangeThrough => "..="

/-- The two records as one. A key of both has the value of the second. -/
def mergeRecords (keys : List String) (values : List Value) (keys' : List String)
    (values' : List Value) : Value :=
  let kept := (keys.zip values).filter fun field => !keys'.contains field.1
  .record (kept.map (·.1) ++ keys') (kept.map (·.2) ++ values')

/-- What an operator gives for two values, apart from arithmetic on numbers and comparison. -/
def joined? (op : BinaryOp) : Value → Value → Option Value
  | .bool a, .bool b =>
    match op with
    | .bitAnd => some (.bool (a && b))
    | .bitOr => some (.bool (a || b))
    | .bitXor => some (.bool (a != b))
    | _ => none
  | .char c, .char d => if op = .add then some (.text (String.ofList [c, d])) else none
  | .list a, .list b => if op = .add then some (.list (a ++ b)) else none
  | .record k a, .record l b => if op = .add then some (mergeRecords k a l b) else none
  | .text s, .text t =>
    match op with
    | .add => some (.text (s ++ t))
    | .subtract => some (.text (s.replace t ""))
    | _ => none
  | .text s, v =>
    match op, v with
    | .add, v => some (.text (s ++ v.asText))
    | .subtract, .char c => some (.text (String.ofList (s.toList.filter (· != c))))
    | _, _ => none
  | v, .text s => if op = .add then some (.text (v.asText ++ s)) else none
  | _, _ => none

/-- What arithmetic gives for two values; `none` if they are not both numbers, or the operator is
not arithmetic. -/
def arithmetic? (op : BinaryOp) : Value → Value → Option Result
  | .float x, .float y => (floatOperation op x y).map (.ok ∘ .float)
  | .int a, .float y => (floatOperation op (ofInt a) y).map (.ok ∘ .float)
  | .float x, .int b => (floatOperation op x (ofInt b)).map (.ok ∘ .float)
  | .int a, .int b => intOperation op a b
  | _, _ => none

/-- Applies an operator to two values. -/
def binary (op : BinaryOp) (v w : Value) : Result :=
  match arithmetic? op v w with
  | some r => r
  | none =>
    match joined? op v w with
    | some u => .ok u
    | none =>
      match compare? op v w with
      | some b => .ok (.bool b)
      | none => .error (.unknownFunction op.sign [v.kind, w.kind])

/-- Applies an operator to one value. -/
def unary (op : UnaryOp) (v : Value) : Result :=
  match op, v with
  | .negate, .int n => checked (-n)
  | .negate, .float x => .ok (.float (-x))
  | .plus, .int n => .ok (.int n)
  | .plus, .float x => .ok (.float x)
  | .not, .bool b => .ok (.bool !b)
  | .negate, v => .error (.unknownFunction "-" [v.kind])
  | .plus, v => .error (.unknownFunction "+" [v.kind])
  | .not, v => .error (.unknownFunction "!" [v.kind])

end SumSheet.Script
