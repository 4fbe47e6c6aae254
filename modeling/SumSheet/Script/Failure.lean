/-
SumSheet.Script.Failure — why a script has no value.

A variable that is not bound is told from all other causes, because a
sheet reports it in another way. A failure inside a function is that of
the call: it carries the name of the function, and a variable missing
there is not one that the sheet could bind.
-/
import SumSheet.Script.Value

namespace SumSheet.Script

/-- Why a script has no value. -/
inductive Failure where
  | unknownVariable (name : String)
  | constantAssigned (name : String)
  | unboundThis
  | unknownFunction (name : String) (kinds : List String)
  | overflow
  | divisionByZero
  | negativePower
  | notWhole (x : Float)
  /-- A value of one kind stands where one of another is due. -/
  | mismatch (kind expected : String)
  | notIterable (kind : String)
  | noProperty (name kind : String)
  | notIndexed (kind index : String)
  | outOfRange (index : Int)
  | badFunctionName (name : String)
  /-- A text that is to be run is not a script. -/
  | malformed (cause : String)
  | tooManyOperations
  | callsTooDeep
  | thrown (text : String)
  | outsideLoop
  | inFunction (name : String) (cause : Failure)

/-- The text of a failure. -/
def Failure.message : Failure → String
  | unknownVariable name => "Variable not found: " ++ name
  | constantAssigned name => "Cannot modify constant: " ++ name
  | unboundThis => "'this' not bound"
  | unknownFunction name kinds =>
    "Function not found: " ++ name ++ " (" ++ ", ".intercalate kinds ++ ")"
  | overflow => "Arithmetic overflow"
  | divisionByZero => "Division by zero"
  | negativePower => "Integer raised to a negative power"
  | notWhole x => "Integer overflow: to_int(" ++ Number.plainText x ++ ")"
  | mismatch kind expected =>
    "Data type incorrect: " ++ kind ++ " (expecting " ++ expected ++ ")"
  | notIterable kind => "For loop expects iterable type: " ++ kind
  | noProperty name kind => "Unknown property: " ++ name ++ " of " ++ kind
  | notIndexed kind index => "Indexer unavailable: " ++ kind ++ " [" ++ index ++ "]"
  | outOfRange index => "Index out of bounds: " ++ Value.intText index
  | badFunctionName name => "Not a function name: " ++ name
  | malformed cause => "Syntax error: " ++ cause
  | tooManyOperations => "Too many operations"
  | callsTooDeep => "Stack overflow"
  | thrown text => "Runtime error: " ++ text
  | outsideLoop => "Break must be inside a loop"
  | inFunction name cause => "In call to function " ++ name ++ ": " ++ cause.message

end SumSheet.Script
