/-
SumSheet.Script.Eval — expressions and statements as computations.

Evaluation follows the structure of the program. What a call does is a
parameter, `Callee`, of all definitions here; only `Program.call` ties
the knot, on the number of levels that calls may still nest.

Every expression, every statement and every variable assigned to counts
as an operation. An operator between operands that are known beforehand
is not left to the evaluation: it counts as one together with them.

Arguments are evaluated before the function is looked up, from the left
to the right, but for a variable in first place: it is handed over where
it stands, so its value is read behind all others. Of a chain such as
`x.f(a)[i]`, everything that is written behind the base comes first:
`a`, then `i`, then `x`.

  §1 Foresight — operands that are known without evaluating them.
  §2 Chains    — methods, properties and indices of a value.
  §3 Arguments — what is asked of them, and which is read last.
  §4 Programs  — the computation of each expression and statement.
  §5 Calls     — functions of a script, function values, and the library.

Left out: a method that changes its value does not change the variable
that it was called on, and a closure fails where it is called.
-/
import SumSheet.Script.Machine
import SumSheet.Script.Library
import SumSheet.Script.Grammar

namespace SumSheet.Script

open Run

/-! ## §1 Foresight -/

/-- What an operator gives for operands that are known, unless it fails. -/
def foreseen? (op : BinaryOp) (left right : Option Value) : Option Value :=
  match left, right with
  | some v, some w => (Script.binary op v w).toOption
  | _, _ => none

/-- The value of an expression that consists of literals, constants and operators, so that it is
known before anything is evaluated. -/
def Expr.fixed? (bindings : List Binding) : Expr → Option Value
  | .unit => some .unit
  | .bool b => some (.bool b)
  | .int n => some (.int n)
  | .float x => some (.float x)
  | .text s => some (.text s)
  | .char c => some (.char c)
  | .variable name =>
    (binding? bindings name).bind fun b => if b.constant then some b.value else none
  | .binary op left right => foreseen? op (left.fixed? bindings) (right.fixed? bindings)
  | .both left right =>
    match left.fixed? bindings, right.fixed? bindings with
    | some (.bool true), right => right
    | some (.bool false), _ => some (.bool false)
    | left, some (.bool true) => left
    | _, _ => none
  | .either left right =>
    match left.fixed? bindings, right.fixed? bindings with
    | some (.bool false), right => right
    | some (.bool true), _ => some (.bool true)
    | left, some (.bool false) => left
    | _, _ => none
  | _ => none

/-- What of two operands decides the value. -/
inductive Decision where
  /-- The value is known. -/
  | known (b : Bool)
  /-- The value is that of this operand, whatever its kind. -/
  | left | right
  /-- Both operands matter, and must be truth values. -/
  | open

/-- The decision for an operator whose value is `neutral` only if both operands are. -/
def decideBy (neutral : Bool) (left right : Option Value) : Decision :=
  match left, right with
  | some (.bool b), _ => if b == neutral then .right else .known b
  | _, some (.bool b) => if b == neutral then .left else .open
  | _, _ => .open

/-! ## §2 Chains -/

/-- A link of a chain with its arguments evaluated. -/
inductive Access where
  | method (name : String) (args : List Value)
  | property (name : String)
  | index (i : Value)

/-- The place that an index means in a sequence; a negative one counts from the end. -/
def placeOf? (length : Nat) (i : Int) : Option Nat :=
  if 0 ≤ i then (if i < length then some i.toNat else none)
  else if -length ≤ i then some (length + i).toNat else none

/-- The field of a record; one that is missing is the unit value. -/
def fieldOf (keys : List String) (values : List Value) (key : String) : Value :=
  (((keys.zip values).find? (·.1 == key)).map (·.2)).getD .unit

/-- The function in a field of a record, with the arguments bound to it. -/
def fieldFunction? (name : String) : Value → Option (String × List Value)
  | .record keys values =>
    match fieldOf keys values name with
    | .function function bound => some (function, bound)
    | _ => none
  | _ => none

/-- A property of a value. -/
def propertyOf (name : String) : Value → Result
  | .record keys values => .ok (fieldOf keys values name)
  | v =>
    match name == "len", Library.size? v with
    | true, some n => .ok (.int n)
    | _, _ => .error (.noProperty name v.kind)

/-- What stands at an index of a value: an item, a character, a field, or a bit of a whole
number. -/
def itemOf (v i : Value) : Result :=
  match v, i with
  | .list items, .int i =>
    match (placeOf? items.length i).bind (items[·]?) with
    | some v => .ok v
    | none => .error (.outOfRange i)
  | .text s, .int i =>
    match (placeOf? s.length i).bind (s.toList[·]?) with
    | some c => .ok (.char c)
    | none => .error (.outOfRange i)
  | .record keys values, .text key => .ok (fieldOf keys values key)
  | .int n, .int i =>
    match placeOf? 64 i with
    | some k => .ok (.bool ((toWord n).getLsbD k))
    | none => .error (.outOfRange i)
  | v, i => .error (.notIndexed v.kind i.kind)

/-- How a call is written: as a function, as a method of a value, or as a function that is marked
to run among the variables of its caller. -/
inductive Site where
  | plain
  | method (self : Value)
  | inPlace

/-- The value in front of a method, which is one more argument to a function of the library. -/
def Site.self : Site → List Value
  | .method v => [v]
  | .plain | .inPlace => []

/-- What a call does. -/
abbrev Callee := (site : Site) → (name : String) → (args : List Value) → Run Value

/-- Follows the links of a chain. -/
def follow (call : Callee) (v : Value) : List Access → Run Value
  | [] => return v
  | .method name args :: rest => do follow call (← call (.method v) name args) rest
  | .property name :: rest => do follow call (← ofResult (propertyOf name v)) rest
  | .index i :: rest => do follow call (← ofResult (itemOf v i)) rest

/-! ## §3 Arguments -/

/-- The variable that an expression is, looked up. -/
def Expr.lookUp? : Expr → Option (Run Value)
  | .variable name => some (read name)
  | .this => some readThis
  | _ => none

/-- What some functions ask of their first argument before the others are evaluated. What is given
back tells whether the one behind it is the first of another call, as behind a function that is
called through its value. -/
def firstCheck? (name : String) (arity : Nat) : Option (Value → Run Bool) :=
  match name, arity with
  | "call", _ + 1 => some fun
    | .function _ bound => return bound.isEmpty
    | v => fail (.mismatch v.kind "Fn")
  | "curry", _ + 2 => some fun
    | .function _ _ => return false
    | v => fail (.mismatch v.kind "Fn")
  | "is_def_fn", 2 => some fun
    | .text _ => return false
    | v => fail (.mismatch v.kind "string")
  | _, _ => none

/-! ## §4 Programs -/

mutual

/-- Evaluates an expression. -/
def Expr.eval (call : Callee) : Expr → Run Value
  | .unit => do tick; return .unit
  | .bool b => do tick; return .bool b
  | .int n => do tick; return .int n
  | .float x => do tick; return .float x
  | .text s => do tick; return .text s
  | .char c => do tick; return .char c
  | .closure => do tick; return .function "anon$" []
  | .variable name => do tick; read name
  | .this => do tick; readThis
  | .unary op e => do tick; ofResult (unary op (← e.eval call))
  | .binary op left right => do
    tick
    let bindings := (← get).bindings
    match foreseen? op (left.fixed? bindings) (right.fixed? bindings) with
    | some v => return v
    | none =>
      let v ← left.eval call
      let w ← right.eval call
      ofResult (binary op v w)
  | .both left right => do
    tick
    let bindings := (← get).bindings
    match decideBy true (left.fixed? bindings) (right.fixed? bindings) with
    | .known b => return .bool b
    | .left => left.eval call
    | .right => right.eval call
    | .open =>
      if ← truth (← left.eval call) then return .bool (← truth (← right.eval call))
      else return .bool false
  | .either left right => do
    tick
    let bindings := (← get).bindings
    match decideBy false (left.fixed? bindings) (right.fixed? bindings) with
    | .known b => return .bool b
    | .left => left.eval call
    | .right => right.eval call
    | .open =>
      if ← truth (← left.eval call) then return .bool true
      else return .bool (← truth (← right.eval call))
  | .orElse left right => do
    tick
    match ← left.eval call with
    | .unit => right.eval call
    | v => return v
  | .call name args => do
    tick
    match firstCheck? name args.length with
    | some check => call .plain name (← evalChecked call check true args)
    | none => call .plain name (← evalLate call args)
  | .inPlace name args => do
    tick
    match firstCheck? name args.length with
    | some check => call .inPlace name (← evalChecked call check false args)
    | none => call .inPlace name (← evalAll call args)
  | .list items => do tick; return .list (← evalAll call items)
  | .record keys values => do tick; return .record keys (← evalAll call values)
  | .chain base links => do
    tick
    let path ← accesses call links
    follow call (← base.eval call) path
  | .choose condition yes no => do
    tick
    if ← truth (← condition.eval call) then inBlock (runAll call yes) else inBlock (runAll call no)
  | .block body => do tick; inBlock (runAll call body)

/-- Evaluates expressions from the left to the right. -/
def evalAll (call : Callee) : List Expr → Run (List Value)
  | [] => return []
  | e :: rest => do
    let v ← e.eval call
    return v :: (← evalAll call rest)

/-- Evaluates the arguments of a function; a variable in first place is read last. -/
def evalLate (call : Callee) : List Expr → Run (List Value)
  | [] => return []
  | e :: rest =>
    match e.lookUp? with
    | some look => do
      tick
      let values ← evalAll call rest
      return (← look) :: values
    | none => do
      let v ← e.eval call
      return v :: (← evalAll call rest)

/-- Evaluates the arguments of a function that asks something of the first. The variable behind it
is read last if the call is `plain` and the check says so. -/
def evalChecked (call : Callee) (check : Value → Run Bool) (plain : Bool) :
    List Expr → Run (List Value)
  | [] => return []
  | e :: rest => do
    let v ← e.eval call
    if (← check v) && plain then return v :: (← evalLate call rest)
    else return v :: (← evalAll call rest)

/-- Evaluates the arguments of a link. -/
def Link.access (call : Callee) : Link → Run Access
  | .method name args => return .method name (← evalAll call args)
  | .property name => return .property name
  | .index e => return .index (← e.eval call)

/-- Evaluates the arguments of links from the left to the right. -/
def accesses (call : Callee) : List Link → Run (List Access)
  | [] => return []
  | l :: rest => do
    let access ← l.access call
    return access :: (← accesses call rest)

/-- Runs a statement. Its value counts where it is the last one of a block. -/
def Stmt.run (call : Callee) : Stmt → Run Value
  | .expr e => do tick; e.eval call
  | .declare name constant e => do
    tick
    declare name (← e.eval call) constant
    return .unit
  | .assign name none e => do
    tick
    let w ← e.eval call
    tick
    write name w
    return .unit
  | .assign name (some op) e => do
    tick
    let w ← e.eval call
    tick
    write name (← ofResult (binary op (← read name) w))
    return .unit
  | .assignThis none e => do
    tick
    let w ← e.eval call
    tick
    writeThis w
    return .unit
  | .assignThis (some op) e => do
    tick
    let w ← e.eval call
    tick
    writeThis (← ofResult (binary op (← readThis) w))
    return .unit
  | .repeatWhile condition body => do
    tick
    repeatWhile (do truth (← condition.eval call)) (inBlock (runAll call body)) operationLimit
  | .forEach name source body => do
    tick
    forEach name (runAll call body) (← items (← source.eval call))
  | .leaveLoop e => do tick; throw (.leaveLoop (← e.eval call))
  | .nextRound => do tick; throw .nextRound
  | .giveBack e => do tick; throw (.giveBack (← e.eval call))
  | .raise e => do tick; fail (.thrown (← e.eval call).asText)

/-- Runs statements one after the other, for the value of the last. -/
def runAll (call : Callee) : List Stmt → Run Value
  | [] => return .unit
  | [s] => s.run call
  | s :: rest => do
    let _ ← s.run call
    runAll call rest

end

/-! ## §5 Calls -/

/-- The functions that a script defines. -/
structure Program where
  functions : List Function

/-- A call of a function that the script does not define. -/
def Library.call (name : String) (args : List Value) : Run Value :=
  match printed? name args with
  | some line => do say line; return .unit
  | none => ofResult (apply name args)

/-- What can be done on a level of nested calls: to enter a function of the script, and to run
statements where the call stands. -/
structure Level where
  enter : Site → Function → List Value → Run Value
  run : List Stmt → Run Value

namespace Program

/-- A script without functions. -/
def empty : Program := ⟨[]⟩

/-- How deep calls may nest. -/
def callLevels : Nat := 64

/-- The function with this name and number of parameters. -/
def find? (p : Program) (name : String) (arity : Nat) : Option Function :=
  p.functions.find? fun f => f.name == name && f.params.length == arity

/-- The parameters of a function as the variables of its body. -/
def frame (f : Function) (args : List Value) : List Binding :=
  List.zipWith (fun name value => ⟨name, value, false⟩) f.params args

/-- A call by name. The script's own functions come before all others. -/
def named (p : Program) (level : Level) : Callee := fun site name args =>
  match p.find? name args.length with
  | some f => level.enter site f args
  | none => Library.call name (site.self ++ args)

/-- The function value of a name. Its name is one that a script can give to a function. -/
def pointer : Value → Run Value
  | .text name =>
    if isName name.toList && isFreeName name then return .function name []
    else fail (.badFunctionName name)
  | v => fail (.mismatch v.kind "string")

/-- Whether the script defines a function with this name and number of parameters. -/
def definesFunction (p : Program) : (name arity : Value) → Run Value
  | .text name, .int arity => return .bool (0 ≤ arity && (p.find? name arity.toNat).isSome)
  | .text _, v => fail (.mismatch v.kind "i64")
  | v, _ => fail (.mismatch v.kind "string")

/-- Whether a variable of this name is in sight. -/
def definesVariable : (name : Value) → Run Value
  | .text name => do return .bool (binding? (← get).bindings name).isSome
  | v => fail (.mismatch v.kind "string")

/-- Runs a text among the variables of its caller. -/
def runText (level : Level) : (text : Value) → Run Value
  | .text text =>
    match parseStatements text.toList with
    | .error cause => fail (.inFunction "eval" (.malformed cause.message))
    | .ok body => here "eval" (level.run body)
  | v => fail (.mismatch v.kind "string")

/-- A call written as a function. Some of them are not functions of their arguments alone: they call
the function that a value names, ask what the script defines or what the caller sees, or run a text
in the caller's place. -/
def callFunction (p : Program) (level : Level) (site : Site) (name : String) (args : List Value) :
    Run Value :=
  match name, args with
  | "call", .function name bound :: args => p.named level site name (bound ++ args)
  | "curry", .function name bound :: arg :: args => return .function name (bound ++ arg :: args)
  | "Fn", [v] => pointer v
  | "is_shared", [_] => return .bool false
  | "is_def_fn", [v, w] => p.definesFunction v w
  | "is_def_var", [v] => definesVariable v
  | "eval", [v] => runText level v
  | name, args => p.named level site name args

/-- A call written as a method of `self`. What `call` calls is `self` if that is a function value,
and otherwise its first argument as a method of `self`. A record has the functions in its fields as
methods. -/
def callMethod (p : Program) (level : Level) (self : Value) (name : String) (args : List Value) :
    Run Value :=
  match self, name, args with
  | .function name bound, "call", args => p.named level .plain name (bound ++ args)
  | self, "call", .function name bound :: args =>
    p.named level (.method self) name (bound ++ args)
  | _, "call", v :: _ => fail (.mismatch v.kind "Fn")
  | self, "call", [] => fail (.mismatch self.kind "Fn")
  | .function name bound, "curry", args => return .function name (bound ++ args)
  | self, "curry", _ => fail (.mismatch self.kind "Fn")
  | _, "is_shared", [] => return .bool false
  | self, name, args =>
    match fieldFunction? name self with
    | some (function, bound) => p.named level (.method self) function (bound ++ args)
    | none => p.named level (.method self) name args

/-- A call on a level. -/
def callOn (p : Program) (level : Level) : Callee
  | .method self, name, args => p.callMethod level self name args
  | site, name, args => p.callFunction level site name args

/-- Enters a function, whose body runs as `run` says. -/
def enter (run : List Stmt → Run Value) : Site → Function → List Value → Run Value
  | .plain, f, args => inside f.name none (frame f args) (do tick; run f.body)
  | .method self, f, args => inside f.name (some self) (frame f args) (do tick; run f.body)
  | .inPlace, f, args => inPlace f.name (frame f args) (do tick; run f.body)

/-- A level above one on which statements run as `run` says. -/
def levelOver (run : List Stmt → Run Value) : Level where
  enter := enter run
  run := run

/-- The level on which nothing can be entered any more. -/
def deepest : Level where
  enter _ _ _ := fail .callsTooDeep
  run _ := fail .callsTooDeep

/-- A call, with so many levels left. -/
def call (p : Program) : (levels : Nat) → Callee
  | 0 => p.callOn deepest
  | levels + 1 => p.callOn (levelOver (runAll (p.call levels)))

/-- How an expression ends in which these variables are in sight, and on which machine. -/
def run (p : Program) (bindings : List Binding) (e : Expr) : Except Interrupt Value × Machine :=
  (e.eval (p.call callLevels)).run (Machine.start bindings)

/-- The value of an expression in which these variables are in sight. -/
def eval (p : Program) (bindings : List Binding) (e : Expr) : Result :=
  match (p.run bindings e).1 with
  | .ok v => .ok v
  | .error (.failed cause) => .error cause
  | .error _ => .error .outsideLoop

/-- The lines that the evaluation of an expression writes. -/
def written (p : Program) (bindings : List Binding) (e : Expr) : List String :=
  (p.run bindings e).2.written

end Program

end SumSheet.Script
