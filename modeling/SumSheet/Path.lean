/-
SumSheet.Path — the names of files.

A path is a text whose steps are divided by slashes. One that begins
with a slash starts at the root, any other at the folder in which the
program works. A path names a file; whether the file exists is a
question for a `FileTree`.
-/

namespace SumSheet.Path

/-- The steps of a path. An empty step, or a single point, stays where it is. -/
def steps (path : String) : List String :=
  splitAtSlash path.toList
where
  /-- The parts of a text between its slashes. -/
  splitAtSlash : List Char → List String
    | [] => [""]
    | '/' :: rest => "" :: splitAtSlash rest
    | c :: rest =>
      match splitAtSlash rest with
      | [] => [String.singleton c]
      | part :: parts => (String.singleton c ++ part) :: parts

/-- The path starts at the root. -/
def isAbsolute (path : String) : Bool :=
  path.toList.head? == some '/'

/-- A path as seen from a folder. -/
def join (folder path : String) : String :=
  if isAbsolute path || folder.isEmpty then path
  else if folder.toList.getLast? == some '/' then folder ++ path
  else folder ++ "/" ++ path

/-- The step stays where it is. -/
def isIdle (step : String) : Bool :=
  step == "" || step == "."

/-- Without the idle steps at the end; the first step of a path always counts. -/
def dropIdle : List String → List String
  | [] => []
  | first :: rest => first :: (rest.reverse.dropWhile isIdle).reverse

/-- The path made of these steps. -/
def ofSteps : List String → String
  | [""] => "/"
  | steps => "/".intercalate steps

/-- The folder of a path; none for the root and for the empty path. -/
def folder? (path : String) : Option String :=
  match dropIdle (steps path) with
  | [] | [""] => none
  | steps => some (ofSteps (dropIdle steps.dropLast))

end SumSheet.Path
