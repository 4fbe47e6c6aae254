/-
SumSheet.Script.Machine — the state in which a script runs.

A machine counts the operations done and holds the variables in sight,
the innermost first, the value whose method runs, if one does, and the
lines written so far. `Run` is a computation on a machine. It ends with
a value, or it is interrupted: by a failure, or by a statement that
leaves a loop or a function. What was written before stays written
however it ends.

  §1 Machines     — state and interruption.
  §2 Operations   — `tick` counts one, and fails beyond the limit.
  §3 Variables    — `read`, `declare` and `write`, and blocks.
  §4 Functions    — `inside` runs a body that sees its parameters alone,
                    `inPlace` one that also sees what its caller sees.
  §5 Loops        — rounds until a condition fails, or over values.
-/
import SumSheet.Script.Operation

namespace SumSheet.Script

/-! ## §1 Machines -/

/-- A variable in sight. -/
structure Binding where
  name : String
  value : Value
  constant : Bool

/-- The state of a run. -/
structure Machine where
  operations : Nat
  bindings : List Binding
  self : Option Value
  written : List String

/-- The machine on which a run with these variables in sight begins. -/
def Machine.start (bindings : List Binding) : Machine where
  operations := 0
  bindings := bindings
  self := none
  written := []

/-- What ends a computation before it has a value. -/
inductive Interrupt where
  | failed (cause : Failure)
  | leaveLoop (value : Value)
  | nextRound
  | giveBack (value : Value)

/-- A computation on a machine. -/
abbrev Run (α : Type) := ExceptT Interrupt (StateM Machine) α

namespace Run

variable {α : Type}

/-- Fails. -/
def fail (cause : Failure) : Run α := throw (.failed cause)

/-- The value of an operation, or its failure. -/
def ofResult : Except Failure α → Run α
  | .ok v => pure v
  | .error cause => fail cause

/-- The truth value of a computation, which must have one. -/
def truth (v : Value) : Run Bool :=
  match v with
  | .bool b => pure b
  | v => fail (.mismatch v.kind "bool")

/-! ## §2 Operations -/

/-- The number of operations allowed to one expression of a sheet. -/
def operationLimit : Nat := 1000000

/-- Counts an operation. -/
def tick : Run Unit := fun m =>
  if m.operations < operationLimit then (.ok (), { m with operations := m.operations + 1 })
  else (.error (.failed .tooManyOperations), m)

/-! ## §3 Variables -/

/-- The innermost binding of a name. -/
def binding? (bindings : List Binding) (name : String) : Option Binding :=
  bindings.find? (·.name == name)

/-- The bindings with the innermost one of a name given another value. -/
def rebind (name : String) (value : Value) : List Binding → List Binding
  | [] => []
  | b :: rest =>
    if b.name == name then { b with value } :: rest else b :: rebind name value rest

/-- The value of a variable. -/
def read (name : String) : Run Value := do
  match binding? (← get).bindings name with
  | some b => return b.value
  | none => fail (.unknownVariable name)

/-- A new variable, in front of all others. -/
def declare (name : String) (value : Value) (constant : Bool) : Run Unit :=
  modify fun m => { m with bindings := ⟨name, value, constant⟩ :: m.bindings }

/-- Gives a variable another value. -/
def write (name : String) (value : Value) : Run Unit := do
  match binding? (← get).bindings name with
  | some b =>
    if b.constant then fail (.constantAssigned name)
    else modify fun m => { m with bindings := rebind name value m.bindings }
  | none => fail (.unknownVariable name)

/-- The value whose method runs. -/
def readThis : Run Value := do
  match (← get).self with
  | some v => return v
  | none => fail .unboundThis

/-- Gives the value whose method runs another value. -/
def writeThis (value : Value) : Run Unit := do
  match (← get).self with
  | some _ => modify fun m => { m with self := some value }
  | none => fail .unboundThis

/-- Writes a line. -/
def say (line : String) : Run Unit :=
  modify fun m => { m with written := m.written ++ [line] }

/-- Runs a block. The variables it declares go out of sight at its end, however it ends. -/
def inBlock (body : Run α) : Run α := fun m =>
  let (result, m') := body m
  (result, { m' with bindings := m'.bindings.drop (m'.bindings.length - m.bindings.length) })

/-! ## §4 Functions -/

/-- How the body of a function ends for its caller: a value given back is the value of the call,
and a failure is one inside the function. -/
def returned (name : String) : Except Interrupt Value → Except Interrupt Value
  | .ok v => .ok v
  | .error (.giveBack v) => .ok v
  | .error (.failed cause) => .error (.failed (.inFunction name cause))
  | .error _ => .error (.failed (.inFunction name .outsideLoop))

/-- Runs the body of the function `name`, which sees only these variables, as a method of a value
if there is one. -/
def inside (name : String) (self : Option Value) (bindings : List Binding) (body : Run Value) :
    Run Value := fun m =>
  let (result, m') := body { m with bindings, self }
  (returned name result, { m' with bindings := m.bindings, self := m.self })

/-- Runs the body of the function `name` among the variables of its caller, behind these. What the
body declares goes out of sight at its end, and what it gives to the caller's variables stays. -/
def inPlace (name : String) (bindings : List Binding) (body : Run Value) : Run Value := fun m =>
  let (result, m') := body { m with bindings := bindings ++ m.bindings, self := none }
  (returned name result,
    { m' with
      bindings := m'.bindings.drop (m'.bindings.length - m.bindings.length)
      self := m.self })

/-- Runs a text that is handed to the function `name` where it stands: the variables it declares
stay in sight. -/
def here (name : String) (body : Run Value) : Run Value := fun m =>
  let (result, m') := body { m with self := none }
  (returned name result, { m' with self := m.self })

/-! ## §5 Loops -/

/-- A round of a loop: `none` if the loop goes on, or the value with which the round leaves it. -/
def round (body : Run Value) : Run (Option Value) := fun m =>
  match body m with
  | (.ok _, m') => (.ok none, m')
  | (.error .nextRound, m') => (.ok none, m')
  | (.error (.leaveLoop v), m') => (.ok (some v), m')
  | (.error i, m') => (.error i, m')

/-- Rounds as long as the condition holds, at most `limit` of them. -/
def repeatWhile (condition : Run Bool) (body : Run Value) : (limit : Nat) → Run Value
  | 0 => fail .tooManyOperations
  | limit + 1 => do
    if ← condition then
      match ← round body with
      | none => repeatWhile condition body limit
      | some v => return v
    else return .unit

/-- A round for each value, with a variable bound to it. -/
def forEach (name : String) (body : Run Value) : List Value → Run Value
  | [] => return .unit
  | v :: rest => do
    tick
    match ← round (inBlock (do declare name v false; body)) with
    | none => forEach name body rest
    | some v => return v

/-- The whole numbers of a range, as far as a loop can get. -/
def rangeItems (first last : Int) (through : Bool) : List Value :=
  let count := (last - first + if through then 1 else 0).toNat
  (List.range (min count (operationLimit + 1))).map fun k : Nat => .int (first + k)

/-- The values that a loop goes over. -/
def items (v : Value) : Run (List Value) :=
  match v with
  | .list items => return items
  | .range first last through => return rangeItems first last through
  | v => fail (.notIterable v.kind)

end Run

end SumSheet.Script
