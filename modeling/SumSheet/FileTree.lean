/-
SumSheet.FileTree — the files that the program can see.

A file tree maps places to files and folders. A place is the list of the
steps that lead to it from the root. `locate` follows a path to a place,
and says what stands in its way; what is found there can be read as
bytes or as text.

The tree is a value: reading changes nothing, and writing gives another
tree.

  §1 Errors  — what can be wrong with a path or a file.
  §2 Places  — what stands where.
  §3 Paths   — from a path to a place.
  §4 Reading
  §5 Writing
-/
import SumSheet.Path

namespace SumSheet

/-! ## §1 Errors -/

/-- Why a file cannot be used. -/
inductive FileError where
  | notFound | notAFolder | isAFolder | nameTooLong | nulInName | notText
  /-- The file is larger than this kind of file may be. -/
  | tooLarge (path kind : String) (size limit : Nat)
  deriving DecidableEq, Repr

/-- The text of an error. -/
def FileError.message : FileError → String
  | notFound => "No such file or directory (os error 2)"
  | notAFolder => "Not a directory (os error 20)"
  | isAFolder => "Is a directory (os error 21)"
  | nameTooLong => "File name too long (os error 36)"
  | nulInName => "file name contained an unexpected NUL byte"
  | notText => "stream did not contain valid UTF-8"
  | tooLarge path kind size limit =>
    "Refusing to read " ++ path ++ ": " ++ kind ++ " too large (" ++ toString size ++ " bytes, max "
      ++ toString limit ++ ")"

/-! ## §2 Places -/

/-- The steps from the root. -/
abbrev Place := List String

/-- What stands at a place. -/
inductive FileEntry where
  | file (content : ByteArray)
  | folder

/-- Files and folders, and the folder in which the program works. -/
structure FileTree where
  workingFolder : Place
  entries : List (Place × FileEntry)

namespace FileTree

/-- Nothing but the working folder. -/
def empty (workingFolder : Place) : FileTree := ⟨workingFolder, []⟩

/-- What stands at a place. The working folder and those above it always exist. -/
def entry? (t : FileTree) (place : Place) : Option FileEntry :=
  if place.isPrefixOf t.workingFolder then some .folder
  else (t.entries.find? (·.1 == place)).map (·.2)

/-- A folder stands at the place. -/
def isFolder (t : FileTree) (place : Place) : Bool :=
  match t.entry? place with
  | some .folder => true
  | _ => false

/-! ## §3 Paths -/

/-- The greatest number of bytes in a step. -/
def stepLimit : Nat := 255

/-- The number of bytes that a path must stay below. -/
def pathLimit : Nat := 4096

/-- Follows steps from a place. Only in a folder there is a step to take. -/
def walk (t : FileTree) (place : Place) : List String → Except FileError Place
  | [] => .ok place
  | step :: rest =>
    if !t.isFolder place then .error .notAFolder
    else if Path.isIdle step then walk t place rest
    else if step == ".." then walk t place.dropLast rest
    else if stepLimit < step.utf8ByteSize then .error .nameTooLong
    else
      match t.entry? (place ++ [step]) with
      | some _ => walk t (place ++ [step]) rest
      | none => .error .notFound

/-- The place that a path leads to. -/
def locate (t : FileTree) (path : String) : Except FileError Place :=
  if path.toList.contains '\x00' then .error .nulInName
  else if path.isEmpty then .error .notFound
  else if pathLimit ≤ path.utf8ByteSize then .error .nameTooLong
  else walk t (if Path.isAbsolute path then [] else t.workingFolder) (Path.steps path)

/-- The shortest absolute path to a place. -/
def pathTo (place : Place) : String :=
  "/" ++ "/".intercalate place

/-- The shortest absolute path to what a path leads to. Two paths lead to the same place exactly
if they have the same one. -/
def canonical (t : FileTree) (path : String) : Except FileError String :=
  (t.locate path).map pathTo

/-- The path leads to something. -/
def contains (t : FileTree) (path : String) : Bool :=
  (t.locate path).toOption.isSome

/-- The path leads to a file. -/
def isFile (t : FileTree) (path : String) : Bool :=
  match t.locate path with
  | .ok place => !t.isFolder place
  | .error _ => false

/-! ## §4 Reading -/

/-- The bytes of a file. -/
def readBytes (t : FileTree) (path : String) : Except FileError ByteArray := do
  match t.entry? (← t.locate path) with
  | some (.file content) => return content
  | some .folder => throw .isAFolder
  | none => throw .notFound

/-- The text that some bytes encode. -/
def decode (content : ByteArray) : Except FileError String :=
  match String.fromUTF8? content with
  | some text => .ok text
  | none => .error .notText

/-- The text in a file. -/
def readText (t : FileTree) (path : String) : Except FileError String := do
  decode (← t.readBytes path)

/-- The text in a file of at most `limit` bytes. -/
def readLimited (t : FileTree) (kind : String) (limit : Nat) (path : String) :
    Except FileError String := do
  let content ← t.readBytes path
  if limit < content.size then throw (.tooLarge path kind content.size limit)
  else decode content

/-! ## §5 Writing -/

/-- The tree with an entry at a place, in place of the one there. -/
def put (t : FileTree) (place : Place) (entry : FileEntry) : FileTree :=
  { t with entries := (place, entry) :: t.entries.filter (·.1 != place) }

/-- The tree with a folder at the end of some steps from a place, and at all places on the way. -/
def makeFolders (t : FileTree) (place : Place) : List String → FileTree
  | [] => t
  | step :: rest =>
    let next := place ++ [step]
    makeFolders (if t.isFolder next then t else t.put next .folder) next rest

/-- The place that a path means, whether something stands there or not. -/
def placeOf (t : FileTree) (path : String) : Place :=
  (Path.steps path).foldl (fun place step =>
    if Path.isIdle step then place
    else if step == ".." then place.dropLast else place ++ [step])
    (if Path.isAbsolute path then [] else t.workingFolder)

/-- The tree with a folder, and the folders above it. -/
def createFolder (t : FileTree) (path : String) : FileTree :=
  t.makeFolders [] (t.placeOf path)

/-- The tree with a file, and the folders above it. -/
def write (t : FileTree) (path : String) (content : ByteArray) : FileTree :=
  let place := t.placeOf path
  (t.makeFolders [] place.dropLast).put place (.file content)

/-- The tree without what stands at the end of a path. -/
def delete (t : FileTree) (path : String) : FileTree :=
  { t with entries := t.entries.filter (·.1 != t.placeOf path) }

end FileTree

end SumSheet
