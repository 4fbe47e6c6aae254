/-
SumSheet.Main — the program.

All that is decided is decided in `CommandLine` and `Interactive`. Here
the files that the arguments speak of are looked up, what is typed is
read, and what there is to say is printed.
-/
import SumSheet.CommandLine

namespace SumSheet.Main

open CommandLine Interactive

/-- The bytes of a stream up to its end. -/
partial def readAll (stream : IO.FS.Stream) (read : ByteArray) : IO ByteArray := do
  let chunk ← stream.read 65536
  if chunk.isEmpty then return read else readAll stream (read ++ chunk)

/-- The tree with what stands on the way of some steps from a place. -/
def look (t : FileTree) (place : Place) : List String → IO FileTree
  | [] => return t
  | step :: rest => do
    if Path.isIdle step then look t place rest
    else if step == ".." then look t place.dropLast rest
    else
      let next := place ++ [step]
      match ← (IO.FS.readBinFile (FileTree.pathTo next)).toBaseIO with
      | .ok content => return t.put next (.file content)
      | .error (.inappropriateType ..) => look (t.put next .folder) next rest
      | .error _ => return t

/-- The tree with what stands at the end of a path. -/
def lookUp (t : FileTree) (path : String) : IO FileTree :=
  look t (if Path.isAbsolute path then [] else t.workingFolder) (Path.steps path)

/-- The folder with the configuration of the user. -/
def configFolder : IO String := do
  let base ← match ← IO.getEnv "XDG_CONFIG_HOME" with
    | some folder => pure folder
    | none => return Path.join ((← IO.getEnv "HOME").getD "") ".config/calcsheet"
  return Path.join base "calcsheet"

/-- All that a run with these options can see. The input is read unless it is typed while the
program answers, or not looked at. -/
def environment (options : Options) : IO Environment := do
  let stdin ← IO.getStdin
  let working := (Path.steps (← IO.currentDir).toString).filter (!Path.isIdle ·)
  let folder ← configFolder
  let terminal ← stdin.isTty
  let asked := [Path.join folder "default.rhai", Path.join folder "config.toml"]
    ++ options.config.toList ++ options.functions ++ options.file.toList
  let files ← asked.foldlM lookUp (.empty working)
  let env : Environment := { files, configFolder := folder, input := .empty, terminal }
  let files ← (configOf env options).1.functions.foldlM lookUp files
  let wanted := options.commands.isEmpty && (options.file.getD "-") == "-"
  let input ← if wanted && !options.interactive && !terminal then readAll stdin .empty
    else pure .empty
  return { env with files, input }

/-- Prints what a document has said since it had `said` entries. -/
def report (verbose : Bool) (said : Nat) (doc : Document) : IO Unit := do
  (← IO.getStderr).putStr (Journal.render verbose (doc.journal.drop said))

/-- The file that a line of input asks for. -/
def askedFor (input : String) : List String :=
  match Interactive.parse input with
  | .ok (.functions path) => [path]
  | _ => []

/-- Answers each line as it is typed. -/
partial def converse (options : Options) (files : FileTree) (doc : Document) : IO Unit := do
  let line ← (← IO.getStdin).getLine
  match Text.lines line with
  | input :: _ =>
    let files ← (doc.functionFiles ++ askedFor input).foldlM lookUp files
    match respond files doc input with
    | some (text, next) =>
      report options.verbose doc.journal.length next
      let stdout ← IO.getStdout
      stdout.putStr (writtenSince doc next ++ text)
      stdout.flush
      converse options files next
    | none => return
  | [] => return

/-- Prints what is left to say, and gives the code. -/
def finish (exit : Exit) : IO UInt32 := do
  (← IO.getStderr).putStr exit.errors
  (← IO.getStdout).putStr exit.output
  return UInt32.ofNat exit.code

/-- Runs the program. -/
def run (args : List String) : IO UInt32 := do
  match CommandLine.parse args with
  | .error refusal => finish refusal.exit
  | .ok options =>
    let env ← environment options
    match start env options with
    | .ok ⟨_, doc, .interactive, said⟩ =>
      (← IO.getStderr).putStr (Journal.render options.verbose (said ++ doc.journal))
      (← IO.getStdout).putStr (Layout.rows doc.written ++ banner ++ "\n")
      converse options env.files doc
      return 0
    | _ => finish (perform env options)

end SumSheet.Main

/-- The program. -/
def main (args : List String) : IO UInt32 :=
  SumSheet.Main.run args
