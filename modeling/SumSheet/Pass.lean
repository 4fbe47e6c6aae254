/-
SumSheet.Pass — one pass over the lines of a sheet, from the top to the
bottom.

A pass starts with nothing bound. Each line is evaluated in the scope
that the lines before it have left; an assignment that succeeds binds
its variable for the lines below. A line that fails never stops the
pass, and never changes the scope.

`Step` is what one line does: its result, the scope it leaves and what
it has to say. `steps` lists them for all lines, and `recalculate` keeps
the results.

A line asks for one evaluation at most. `requests` lists what a pass asks
for, and so what it writes: whatever the evaluations write, line by line.
-/
import SumSheet.Line
import SumSheet.Percent
import SumSheet.Evaluator
import SumSheet.Number.Display
import SumSheet.Journal

namespace SumSheet

/-! ## §1 Results -/

/-- How a line fails. -/
inductive LineFailure where
  | invalidAssignment | invalidExpression
  deriving DecidableEq, Repr

/-- The text of a failure. -/
def LineFailure.text : LineFailure → String
  | invalidAssignment => "Invalid assignment"
  | invalidExpression => "Invalid expression"

/-- What a line evaluates to. -/
inductive Outcome where
  | value (x : Float)
  | failure (f : LineFailure)
  /-- There is nothing on the line but blanks. -/
  | blank

/-- The result of a line, and the variable that the line binds. -/
structure ResultLine where
  id : Nat
  assigned : Option String
  outcome : Outcome

namespace ResultLine

/-- The line fails. -/
def isFailure (r : ResultLine) : Bool :=
  match r.outcome with
  | .failure _ => true
  | _ => false

/-- The value of the line. -/
def value? (r : ResultLine) : Option Float :=
  match r.outcome with
  | .value x => some x
  | _ => none

/-- The result as it is shown: `name = value`, `value`, the text of the failure, or nothing. -/
def text (r : ResultLine) : String :=
  match r.outcome, r.assigned with
  | .value x, some name => name ++ " = " ++ Number.display x
  | .value x, none => Number.display x
  | .failure f, _ => f.text
  | .blank, _ => ""

end ResultLine

/-! ## §2 One line -/

/-- What a line does. -/
structure Step where
  result : ResultLine
  /-- The scope for the lines below. -/
  scope : Scope
  /-- The cause of a failure, for those who look closer. -/
  note : Option String

/-- How an assignment fails. One that only waits for a variable is not a bad assignment. -/
def EvalError.lineFailure (e : EvalError) : LineFailure :=
  if e.isUnknownVariable then .invalidExpression else .invalidAssignment

/-- The step of an assignment. -/
def assignmentStep (evaluator : Evaluator) (scope : Scope) (id : Nat) (name right : List Char) :
    Step :=
  let name := String.ofList name
  match evaluator right scope with
  | .ok x => ⟨⟨id, some name, .value x⟩, scope.set name x, none⟩
  | .error e =>
    ⟨⟨id, none, .failure e.lineFailure⟩, scope,
      some ("line " ++ toString id ++ ": assignment to " ++ name ++ " failed: " ++ e.message)⟩

/-- The step of an expression. A percentage in words comes before anything else. -/
def expressionStep (evaluator : Evaluator) (scope : Scope) (id : Nat) (text : List Char) : Step :=
  match percentageValue? text with
  | some x => ⟨⟨id, none, .value x⟩, scope, none⟩
  | none =>
    match evaluator text scope with
    | .ok x => ⟨⟨id, none, .value x⟩, scope, none⟩
    | .error e =>
      ⟨⟨id, none, .failure .invalidExpression⟩, scope,
        some ("line " ++ toString id ++ ": expression failed: " ++ e.message)⟩

/-- The step of a line. -/
def lineStep (evaluator : Evaluator) (scope : Scope) (line : Line) : Step :=
  match normalize line.text.toList with
  | [] => ⟨⟨line.id, none, .blank⟩, scope, none⟩
  | text =>
    match classify text with
    | .assignment name right => assignmentStep evaluator scope line.id name right
    | .expression text => expressionStep evaluator scope line.id text

/-! ## §3 All lines -/

/-- The steps of the lines, the first of them in this scope. -/
def stepsFrom (evaluator : Evaluator) (scope : Scope) : List Line → List Step
  | [] => []
  | line :: rest =>
    let step := lineStep evaluator scope line
    step :: stepsFrom evaluator step.scope rest

/-- The steps of a sheet. -/
def steps (evaluator : Evaluator) (lines : List Line) : List Step :=
  stepsFrom evaluator ∅ lines

/-- The results of a sheet, one for each line and in their order. -/
def recalculate (evaluator : Evaluator) (lines : List Line) : List ResultLine :=
  (steps evaluator lines).map (·.result)

/-- The results of lines with these texts, as they are shown. -/
def recalculateTexts (evaluator : Evaluator) (texts : List String) : List String :=
  (recalculate evaluator (Line.numbered texts)).map ResultLine.text

/-- The expression that a line has evaluated, if it does. -/
def Line.asked? (line : Line) : Option (List Char) :=
  match normalize line.text.toList with
  | [] => none
  | text =>
    match classify text with
    | .assignment _ right => some right
    | .expression text => if (percentageValue? text).isNone then some text else none

/-- What lines have evaluated, and in which scopes. -/
def requestsFrom (evaluator : Evaluator) (scope : Scope) : List Line → List (List Char × Scope)
  | [] => []
  | line :: rest =>
    (line.asked?.map (·, scope)).toList
      ++ requestsFrom evaluator (lineStep evaluator scope line).scope rest

/-- What the lines of a sheet have evaluated. -/
def requests (evaluator : Evaluator) (lines : List Line) : List (List Char × Scope) :=
  requestsFrom evaluator ∅ lines

/-- The lines that a pass writes, if these are what an evaluation writes. -/
def passWrites (evaluator : Evaluator) (writes : List Char → Scope → List String)
    (lines : List Line) : List String :=
  (requests evaluator lines).flatMap fun (expression, scope) => writes expression scope

/-- What these steps have to say: the causes of failures, and a summary. -/
def passEntries (steps : List Step) : List Journal.Entry :=
  let last := (steps.getLast?.map (·.scope)).getD ∅
  let summary := "recalculated " ++ toString steps.length ++ " lines, " ++ toString last.size
    ++ " variables bound"
  (steps.filterMap (·.note) ++ [summary]).map (.detail Journal.pass)

end SumSheet
