/-
SumSheet.Evaluator — expressions of a sheet and their values.

An `Evaluator` gives the value of an expression when some variables are
bound, or says why it has none. The rest of the library asks for nothing
more, whatever evaluates.

The evaluator of sheets is `Program.evaluate`: the expression is put
into the notation of scripts, read as one, and evaluated with the
variables and constants in sight. A script may add functions;
`compile` reads them.

Only numbers are values of a sheet. What evaluates to NaN, or to no
number at all, is an error.
-/
import SumSheet.Formula
import SumSheet.Scope
import SumSheet.Script.Grammar
import SumSheet.Script.Eval

namespace SumSheet

open Script

/-! ## §1 Evaluators -/

/-- Why an expression has no value. -/
inductive EvalError where
  /-- A variable is not bound. -/
  | unknownVariable (name : String)
  /-- The value is of this kind, which is not a number. -/
  | notANumber (kind : String)
  /-- The text is not an expression. -/
  | malformed (cause : ParseError)
  /-- The evaluation fails. -/
  | failed (cause : Failure)

namespace EvalError

/-- The text of an error. -/
def message : EvalError → String
  | unknownVariable name => "Unknown variable: " ++ name
  | notANumber kind => "Expression result is not a number: " ++ kind
  | malformed cause => "Parse error: " ++ cause.message
  | failed cause => "Rhai error: " ++ cause.message

/-- The error is that a variable is not bound. -/
def isUnknownVariable : EvalError → Bool
  | unknownVariable _ => true
  | _ => false

/-- The error of a failed evaluation. A variable goes by its name on the sheet. -/
def ofFailure : Failure → EvalError
  | .unknownVariable name => unknownVariable (String.ofList (Formula.sheetName name.toList))
  | cause => failed cause

end EvalError

/-- Gives an expression its value in a scope. -/
abbrev Evaluator := (expression : List Char) → (scope : Scope) → Except EvalError Float

/-! ## §2 Values -/

/-- The number that a value is. -/
def numberOf : Value → Except EvalError Float
  | .float x => if x.isNaN then .error (.notANumber "NaN") else .ok x
  | .int n => .ok (Number.ofInt n)
  | v => .error (.notANumber v.kind)

/-- A variable of a sheet in a script. -/
def sheetBinding (constant : Bool) (binding : String × Float) : Binding :=
  ⟨String.ofList (Formula.variableName binding.1.toList), .float binding.2, constant⟩

/-- The variables in sight of an expression: those of the scope, and the constants that the scope
does not bind. -/
def sheetBindings (scope : Scope) : List Binding :=
  scope.toList.map (sheetBinding false)
    ++ (constants.filter fun c => !scope.contains c.1).map (sheetBinding true)

/-! ## §3 Scripts -/

namespace Script

/-- The value of an expression of a sheet, which may call the functions of the script. -/
def Program.evaluate (p : Program) : Evaluator := fun expression scope =>
  match parseFormula (Formula.toScript expression) with
  | .error cause => .error (.malformed cause)
  | .ok e =>
    match p.eval (sheetBindings scope) e with
    | .error cause => .error (.ofFailure cause)
    | .ok v => numberOf v

/-- The lines that the evaluation of an expression writes. -/
def Program.writes (p : Program) (expression : List Char) (scope : Scope) : List String :=
  match parseFormula (Formula.toScript expression) with
  | .error _ => []
  | .ok e => p.written (sheetBindings scope) e

/-- Why a text has no functions to offer. -/
inductive CompileError where
  /-- The text is not a script. -/
  | malformed (cause : ParseError)
  /-- These functions could never be called, because a sheet is read in lower case. -/
  | upperCaseNames (names : List String)

/-- The text of an error. -/
def CompileError.message : CompileError → String
  | malformed cause => "Error in custom functions: " ++ cause.message
  | upperCaseNames names =>
    "Error in custom functions: function names must be lower case: " ++ ", ".intercalate names

/-- The names with an upper-case letter, each once and in order. -/
def upperCaseNames (functions : List Function) : List String :=
  let names := (functions.map (·.name)).filter fun name => name.toList.any Char.isUpper
  (names.mergeSort fun a b => decide (a ≤ b)).eraseDups

/-- The functions of a script. What else it does is left out. -/
def compile (script : String) : Except CompileError Program :=
  match parseProgram script.toList with
  | .error cause => .error (.malformed cause)
  | .ok functions =>
    match upperCaseNames functions with
    | [] => .ok ⟨functions⟩
    | names => .error (.upperCaseNames names)

end Script

end SumSheet
