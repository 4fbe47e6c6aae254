/-
SumSheet.Script.Term — expressions and statements of scripts.

`Expr` and `Stmt` refer to each other: a block of statements can stand
for an expression. The operators that always evaluate both operands are
gathered in `BinaryOp`; those that may leave the right one alone have
constructors of their own.

A call may be marked, as `f!(x)`: the function then runs among the
variables of its caller. That is `inPlace`. In the body of a function,
`this` is the value whose method runs.

A loop without a condition is a `repeatWhile` whose condition is `true`,
and a word that may carry a value, such as `return`, carries the unit
value where none is written.
-/

namespace SumSheet.Script

/-- Operators on one value. -/
inductive UnaryOp where
  | negate | plus | not
  deriving DecidableEq, Repr

/-- Operators on two values. -/
inductive BinaryOp where
  | add | subtract | multiply | divide | modulo | power
  | shiftLeft | shiftRight | bitAnd | bitOr | bitXor
  | equal | notEqual | less | lessEqual | greater | greaterEqual
  | range | rangeThrough
  deriving DecidableEq, Repr

mutual

/-- An expression. -/
inductive Expr where
  | unit
  | bool (b : Bool)
  | int (n : Int)
  | float (x : Float)
  | text (s : String)
  | char (c : Char)
  | closure
  | variable (name : String)
  | this
  | unary (op : UnaryOp) (e : Expr)
  | binary (op : BinaryOp) (left right : Expr)
  | both (left right : Expr)
  | either (left right : Expr)
  | orElse (left right : Expr)
  | call (name : String) (args : List Expr)
  | inPlace (name : String) (args : List Expr)
  | list (items : List Expr)
  | record (keys : List String) (values : List Expr)
  | chain (base : Expr) (links : List Link)
  | choose (condition : Expr) (yes no : List Stmt)
  | block (body : List Stmt)

/-- What follows a value: a call of one of its methods, a property, or an index. -/
inductive Link where
  | method (name : String) (args : List Expr)
  | property (name : String)
  | index (e : Expr)

/-- A statement. -/
inductive Stmt where
  | expr (e : Expr)
  | declare (name : String) (constant : Bool) (value : Expr)
  | assign (name : String) (op : Option BinaryOp) (value : Expr)
  | assignThis (op : Option BinaryOp) (value : Expr)
  | repeatWhile (condition : Expr) (body : List Stmt)
  | forEach (name : String) (source : Expr) (body : List Stmt)
  | leaveLoop (value : Expr)
  | nextRound
  | giveBack (value : Expr)
  | raise (value : Expr)

end

/-- A function that a script defines. -/
structure Function where
  name : String
  params : List String
  body : List Stmt

namespace Expr

/-- A literal, of a kind that is seen without evaluating it. -/
def isLiteral : Expr → Bool
  | .unit | .bool _ | .int _ | .float _ | .text _ | .char _ | .list _ | .record _ _ => true
  | _ => false

/-- The expression may turn out to be a truth value: it is not a literal of another kind. -/
def mayBeBool : Expr → Bool
  | .bool _ => true
  | e => !e.isLiteral

/-- The expression may be indexed by `i`, as far as the kinds of literals tell. -/
def mayBeIndexedBy (base i : Expr) : Bool :=
  match base with
  | .record _ _ => match i with
    | .text _ => true
    | _ => !i.isLiteral
  | .int _ | .list _ | .text _ => match i with
    | .int _ => true
    | _ => !i.isLiteral
  | .both _ _ | .either _ _ => false
  | _ => !base.isLiteral

end Expr

namespace Stmt

/-- The statement ends by itself; after any other, a semicolon divides it from the next. -/
def endsItself : Stmt → Bool
  | .expr (.choose _ _ _) | .expr (.block _) | .repeatWhile _ _ | .forEach _ _ _ => true
  | _ => false

end Stmt

end SumSheet.Script
