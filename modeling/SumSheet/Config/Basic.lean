/-
SumSheet.Config.Basic — the configuration of the program.

The configuration says which files with functions are loaded, and how
results are printed. It is read from a file. Nothing that is wrong with
this file stops the program: there is a warning, and the configuration
is the default one.
-/
import SumSheet.Config.Notation
import SumSheet.FileTree

namespace SumSheet

/-- What can be configured. -/
structure Config where
  /-- Files with functions, loaded behind the ones that are always loaded. -/
  functions : List String
  /-- Results are printed beside their lines. -/
  sideBySide : Bool
  deriving DecidableEq, Repr

namespace Config

/-- The configuration without a file. -/
def default : Config := ⟨[], false⟩

/-- The greatest size of a configuration file. -/
def fileLimit : Nat := 1048576

/-- The paths that the settings give to files with functions, unless they do so twice. -/
def functionsOf? (settings : List Setting) : Option (List String) :=
  let given := settings.filterMap fun
    | .functions paths => some paths
    | .sideBySide _ => none
  match given with
  | [] => some default.functions
  | [paths] => some paths
  | _ => none

/-- Whether the settings put results beside their lines, unless they say so twice. -/
def sideBySideOf? (settings : List Setting) : Option Bool :=
  let given := settings.filterMap fun
    | .functions _ => none
    | .sideBySide b => some b
  match given with
  | [] => some default.sideBySide
  | [b] => some b
  | _ => none

/-- The configuration in the text of a file. -/
def ofText? (text : String) : Option Config := do
  let settings ← read? text
  return ⟨← functionsOf? settings, ← sideBySideOf? settings⟩

/-- The configuration with all paths as seen from a folder. -/
def resolve (config : Config) (folder : String) : Config :=
  { config with functions := config.functions.map (Path.join folder) }

/-- The configuration in a file, with its paths as seen from the folder of the file. -/
def ofFile (files : FileTree) (path : String) : Except String Config :=
  match files.readLimited "file" fileLimit path with
  | .error (.tooLarge path kind size limit) =>
    .error (FileError.tooLarge path kind size limit).message
  | .error e => .error ("Failed to read " ++ path ++ ": " ++ e.message)
  | .ok text =>
    match ofText? text with
    | some config => .ok (((Path.folder? path).map config.resolve).getD config)
    | none => .error ("Failed to parse " ++ path ++ ": " ++ "TOML parse error")

/-- The configuration in a file, and the warnings about it. It is no warning that a file is missing
which nobody has asked for. -/
def load (files : FileTree) (path : String) (requested : Bool) : Config × List String :=
  if files.contains path then
    match ofFile files path with
    | .ok config => (config, [])
    | .error warning => (default, [warning])
  else if requested then (default, ["Config file not found: " ++ path])
  else (default, [])

end Config

end SumSheet
