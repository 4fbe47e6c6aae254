/-
SumSheet.Document — a sheet that is edited.

A document holds the lines of a sheet, their results, and the functions
loaded from files. There is always at least one line. Every change is
followed by a pass over all lines, so the results are always those of
the lines with the functions loaded so far.

Lines are told apart by their ids. A new line has an id above all
others; replacing all lines starts again from one.

Functions come from files, in the order in which they were loaded. All
of them together are one script, with an empty line between two files.
What a script is, and how it evaluates, is left to an `Engine`.

An operation changes the document step by step, and may fail on the way.
It gives back the document in either case (`Answer`): that a failure
leaves the document as it was does not go without saying.

  §1 Documents  — what a document is, and how it is made.
  §2 Errors     — why an operation fails.
  §3 Operations — what an operation is, and what it gives.
  §4 Lines      — operations on lines.
  §5 Functions  — loading and reloading.
-/
import SumSheet.Pass
import SumSheet.Engine
import SumSheet.FileTree

namespace SumSheet

open Script

variable [Engine]

/-! ## §1 Documents -/

/-- A sheet with its results and functions. -/
structure Document where
  lines : List Line
  results : List ResultLine
  /-- The functions that expressions can call. -/
  program : Engine.Program
  /-- The files that the functions come from. -/
  functionFiles : List String
  /-- The text of all these files. -/
  script : Option String
  /-- What has been said so far. -/
  journal : List Journal.Entry
  /-- What evaluations have written so far. -/
  written : List String

namespace Document

/-- What evaluates the lines. -/
def evaluator (doc : Document) : Evaluator := Engine.evaluate doc.program

/-- The document after a pass. -/
def recalculate (doc : Document) : Document :=
  let steps := steps doc.evaluator doc.lines
  { doc with
    results := steps.map (·.result)
    journal := doc.journal ++ passEntries steps
    written := doc.written ++ passWrites doc.evaluator (Engine.writes doc.program) doc.lines }

/-- Lines with these texts, or a single empty one. -/
def linesOf (texts : List String) : List Line :=
  Line.numbered (if texts.isEmpty then [""] else texts)

/-- A document with lines of these texts, and no functions. -/
def ofTexts (texts : List String) : Document :=
  recalculate
    { lines := linesOf texts, results := [], program := Engine.empty, functionFiles := [],
      script := none, journal := [], written := [] }

/-- A document with a single empty line. -/
def new : Document := ofTexts [""]

/-- The number of lines. -/
def size (doc : Document) : Nat := doc.lines.length

/-- There is no line. -/
def isEmpty (doc : Document) : Bool := doc.lines.isEmpty

/-- The index of the line with an id. -/
def position? (doc : Document) (id : Nat) : Option Nat :=
  doc.lines.findIdx? (·.id == id)

/-- The line with an id. -/
def line? (doc : Document) (id : Nat) : Option Line :=
  doc.lines.find? (·.id == id)

/-- The result of the line with an id. -/
def result? (doc : Document) (id : Nat) : Option ResultLine :=
  doc.results.find? (·.id == id)

/-- The results as they are shown. -/
def resultTexts (doc : Document) : List String :=
  doc.results.map ResultLine.text

/-- Some line fails. -/
def hasFailures (doc : Document) : Bool :=
  doc.results.any ResultLine.isFailure

/-- An id above all others. -/
def nextId (doc : Document) : Nat :=
  (doc.lines.map (·.id)).foldl max 0 + 1

/-! ## §2 Errors -/

/-- Why an operation on a document fails. -/
inductive Error where
  | file (cause : FileError)
  | unknownLine (id : Nat)
  | lastLine
  | nothingLoaded
  /-- The functions are not a script, now that the ones from this file would join them, or since
  the files have changed. -/
  | rejected (path : Option String) (cause : CompileError)

/-- The text of an error. -/
def Error.message : Error → String
  | file cause => "IO error: " ++ cause.message
  | unknownLine id => "No line with id " ++ toString id
  | lastLine => "Cannot remove the last line"
  | nothingLoaded => "No functions file loaded"
  | rejected _ cause => "Rhai compile error: " ++ cause.message

/-- What an error has to say besides: a file that is refused is warned of. -/
def Error.entries : Error → List Journal.Entry
  | rejected (some path) cause => [.warning (path ++ ": " ++ cause.message)]
  | _ => []

/-! ## §3 Operations -/

/-- What is done to a document, step by step. Changes made before a step fails are not taken
back. -/
abbrev Action (ε : Type) := ExceptT ε (StateM Document)

/-- What an action gives: a result, or the reason why there is none; and the document that it leaves
behind in either case. -/
structure Answer (ε α : Type) where
  result : Except ε α
  document : Document

section

variable {ε α : Type}

/-- Carries out an action on a document. -/
def carryOut (doc : Document) (action : Action ε α) : Answer ε α :=
  let (result, document) := action.run.run doc
  ⟨result, document⟩

namespace Answer

/-- The answer without the result. -/
def done (answer : Answer ε α) : Answer ε Unit :=
  ⟨answer.result.map fun _ => (), answer.document⟩

/-- The result with the document, for those who go on only if there is one. -/
def toExcept (answer : Answer ε α) : Except ε (α × Document) :=
  answer.result.map (·, answer.document)

/-- The document, for those who go on only if nothing has failed. -/
def success (answer : Answer ε Unit) : Except ε Document :=
  answer.toExcept.map (·.2)

instance : CoeOut (Answer ε α) (Except ε (α × Document)) := ⟨toExcept⟩

instance : CoeOut (Answer ε Unit) (Except ε Document) := ⟨success⟩

end Answer

end

/-! ## §4 Lines -/

/-- The document with other lines. -/
def withLines (doc : Document) (lines : List Line) : Document :=
  recalculate { doc with lines }

/-- The index of the line with an id, which must be there. -/
def position (id : Nat) : Action Error Nat := do
  match (← get).position? id with
  | some i => return i
  | none => throw (.unknownLine id)

/-- Gives a line another text. -/
def setText (doc : Document) (id : Nat) (text : String) : Answer Error Unit :=
  doc.carryOut do
    let i ← position id
    modify fun doc => { doc with lines := doc.lines.modify i fun line => { line with text } }
    modify recalculate

/-- A new line behind another one; gives its id. -/
def insertAfter (doc : Document) (id : Nat) (text : String) : Answer Error Nat :=
  doc.carryOut do
    let i ← position id
    let new := (← get).nextId
    modify fun doc => { doc with lines := doc.lines.insertIdx (i + 1) ⟨new, text⟩ }
    modify recalculate
    return new

/-- A new line at the end; gives its id. -/
def push (doc : Document) (text : String) : Nat × Document :=
  (doc.nextId, doc.withLines (doc.lines ++ [⟨doc.nextId, text⟩]))

/-- Removes a line, unless it is the only one. -/
def remove (doc : Document) (id : Nat) : Answer Error Unit :=
  doc.carryOut do
    let i ← position id
    if (← get).size ≤ 1 then throw .lastLine
    modify fun doc => { doc with lines := doc.lines.eraseIdx i }
    modify recalculate

/-- Removes a line if its text is empty and it is not the only one; tells whether it did. -/
def removeIfEmpty (doc : Document) (id : Nat) : Answer Error Bool :=
  doc.carryOut do
    let i ← position id
    let isEmpty := (((← get).lines[i]?).map (·.text.isEmpty)).getD false
    if !isEmpty || (← get).size ≤ 1 then return false
    modify fun doc => { doc with lines := doc.lines.eraseIdx i }
    modify recalculate
    return true

/-- Replaces all lines by lines with these texts. -/
def replaceAll (doc : Document) (texts : List String) : Document :=
  doc.withLines (linesOf texts)

/-! ## §5 Functions -/

/-- The greatest size of a file with functions. -/
def functionFileLimit : Nat := 1048576

/-- The text in a file with functions. -/
def readFunctions (files : FileTree) (path : String) : Except Error String :=
  (files.readLimited "functions file" functionFileLimit path).mapError .file

/-- The texts in these files, all of which must be readable. -/
def readAll (files : FileTree) (paths : List String) : Except Error (List String) :=
  paths.mapM (readFunctions files)

/-- The texts of all files as one script. -/
def joinScripts (texts : List String) : String :=
  "\n\n".intercalate texts

/-- The document with the functions of another script. -/
def withScript (doc : Document) (script : String) (program : Engine.Program) : Document :=
  recalculate { doc with script := some script, program }

/-- Loads the functions in a file, behind those loaded before; gives the shortest path of the file.
One that is loaded already is not loaded again. -/
def loadFunctions (doc : Document) (files : FileTree) (path : String) : Answer Error String :=
  doc.carryOut do
    let path ← (files.canonical path).mapError Error.file
    let text ← readFunctions files path
    if (← get).functionFiles.contains path then return path
    let script := joinScripts ((← get).script.toList ++ [text])
    let program ← (Engine.compile script).mapError (Error.rejected (some path))
    -- all that can fail comes before the first change
    let entry := .detail Journal.loading ("loaded custom functions from " ++ path)
    modify fun doc => { doc with journal := doc.journal ++ [entry] }
    modify fun doc => { doc with functionFiles := doc.functionFiles ++ [path] }
    modify fun doc => { doc with script := some script }
    modify fun doc => { doc with program }
    modify recalculate
    return path

/-- Loads all files with functions again; gives their number. -/
def reloadFunctions (doc : Document) (files : FileTree) : Answer Error Nat :=
  doc.carryOut do
    if (← get).functionFiles.isEmpty then throw .nothingLoaded
    let script := joinScripts (← readAll files (← get).functionFiles)
    let program ← (Engine.compile script).mapError (Error.rejected none)
    modify fun doc => { doc with script := some script }
    modify fun doc => { doc with program }
    modify recalculate
    return (← get).functionFiles.length

end Document

end SumSheet
