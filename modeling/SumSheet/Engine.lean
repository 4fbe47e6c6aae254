/-
SumSheet.Engine — what a document asks of scripts.

A document compiles the scripts that it loads, evaluates expressions with
their functions, and passes on what an evaluation writes. How that is
done is none of its business: `Engine` is all that it knows of scripts,
and what is said of documents is said for every engine. The scripts of
this library are one.
-/
import SumSheet.Evaluator

namespace SumSheet

open Script

/-- What compiles scripts and evaluates expressions. -/
class Engine where
  /-- The functions of a script. -/
  Program : Type
  /-- No functions but those that are built in. -/
  empty : Program
  compile : String → Except CompileError Program
  evaluate : Program → Evaluator
  /-- The lines that the evaluation of an expression writes. -/
  writes : Program → List Char → Scope → List String

/-- The scripts of this library. -/
instance Script.engine : Engine where
  Program := Script.Program
  empty := .empty
  compile := Script.compile
  evaluate := Script.Program.evaluate
  writes := Script.Program.writes

end SumSheet
