/-
SumSheet.Config.Notation — the notation of configuration files.

A configuration file is a list of settings, one on each line: a key, an
equals sign and a value. Comments begin with `#`. Two kinds of values
matter here, truth values and lists of strings; a file with any other is
not a configuration.

  §1 Blanks   — white space, line ends and comments.
  §2 Strings  — the four ways to quote a text.
  §3 Values   — truth values and lists.
  §4 Settings — keys, lines and the whole file.

Every reader takes the text that is left and gives back what it leaves;
`none` means that the text is not in the notation. Where a reader has a
`limit`, the text must not be longer.
-/
import SumSheet.Text.CodePoints
import SumSheet.Script.Lexer

namespace SumSheet.Config

open Script (hexDigits?)

/-- A reader: a result and the text behind it. -/
abbrev Reader (α : Type) := List Char → Option (α × List Char)

/-! ## §1 Blanks -/

/-- White space within a line. -/
def isSpace (c : Char) : Bool :=
  c == ' ' || c == '\t'

/-- The character may stand in a comment or, as it is, in a string: no control character but the
tab. -/
def isPlain (c : Char) : Bool :=
  c == '\t' || (' ' ≤ c && c != '\x7f')

/-- The text behind white space. -/
def skipSpace (text : List Char) : List Char :=
  text.dropWhile isSpace

/-- The text behind a comment, if there is one. -/
def skipComment : List Char → List Char
  | '#' :: rest => rest.dropWhile isPlain
  | text => text

/-- The text behind the end of a line. -/
def lineEnd? : List Char → Option (List Char)
  | '\n' :: rest => some rest
  | '\r' :: '\n' :: rest => some rest
  | _ => none

/-- The text behind white space, line ends and comments. -/
def skipBlanks : (limit : Nat) → List Char → List Char
  | 0, text => text
  | limit + 1, text =>
    let rest := skipSpace text
    match lineEnd? (skipComment rest) with
    | some behind => skipBlanks limit behind
    | none => rest

/-! ## §2 Strings -/

/-- The character that an escape stands for, behind its backslash. -/
def escape? : Reader Char
  | 'b' :: rest => some ('\x08', rest)
  | 't' :: rest => some ('\t', rest)
  | 'n' :: rest => some ('\n', rest)
  | 'f' :: rest => some ('\x0c', rest)
  | 'r' :: rest => some ('\r', rest)
  | '"' :: rest => some ('"', rest)
  | '\\' :: rest => some ('\\', rest)
  | 'u' :: rest => point? 4 rest
  | 'U' :: rest => point? 8 rest
  | _ => none
where
  /-- The character whose number is written in so many hexadecimal digits. -/
  point? (count : Nat) : Reader Char := fun text =>
    match hexDigits? count 0 text with
    | some (n, rest) => if n.isValidChar then some (Char.ofNat n, rest) else none
    | none => none

/-- A string between quotes, which stays on its line. It knows escapes unless it is `literal`. -/
def string? (quote : Char) (literal : Bool) : (limit : Nat) → Reader (List Char)
  | 0, _ => none
  | _, [] => none
  | limit + 1, c :: rest =>
    if c == quote then some ([], rest)
    else if c == '\\' && !literal then
      match escape? rest with
      | some (d, rest) => (string? quote literal limit rest).map fun r => (d :: r.1, r.2)
      | none => none
    else if isPlain c then (string? quote literal limit rest).map fun r => (c :: r.1, r.2)
    else none

/-- The text behind a backslash at the end of a line: the next character that is not blank, on
whatever line it is. `none` if something else follows on the line. -/
def continuation? (text : List Char) : Option (List Char) :=
  (lineEnd? (skipSpace text)).map fun rest => skipLines rest.length rest
where
  /-- The text behind white space and line ends. -/
  skipLines : (limit : Nat) → List Char → List Char
    | 0, text => text
    | limit + 1, text =>
      match lineEnd? (skipSpace text) with
      | some rest => skipLines limit rest
      | none => skipSpace text

/-- Quotes at the end of a string over several lines: three close it, and up to two in front of
them belong to it. -/
def closing? (quote : Char) (text : List Char) : Option (List Char × List Char) :=
  let count := (text.takeWhile (· == quote)).length
  if count < 3 then none
  else
    let kept := min (count - 3) 2
    some (List.replicate kept quote, text.drop (kept + 3))

/-- A string between three quotes, which may go over several lines. -/
def longString? (quote : Char) (literal : Bool) : (limit : Nat) → Reader (List Char)
  | 0, _ => none
  | limit + 1, text =>
    match closing? quote text, text with
    | some closed, _ => some closed
    | none, [] => none
    | none, c :: rest =>
      if c == '\\' && !literal then
        match escape? rest with
        | some (d, rest) => (longString? quote literal limit rest).map fun r => (d :: r.1, r.2)
        | none =>
          match continuation? rest with
          | some rest => longString? quote literal limit rest
          | none => none
      else
        match lineEnd? text with
        | some rest => (longString? quote literal limit rest).map fun r => ('\n' :: r.1, r.2)
        | none =>
          if isPlain c then (longString? quote literal limit rest).map fun r => (c :: r.1, r.2)
          else none

/-- A string in any of the four ways. A line end right behind three quotes does not belong to the
string. -/
def text? (limit : Nat) : Reader (List Char)
  | '"' :: '"' :: '"' :: rest => longString? '"' false limit ((lineEnd? rest).getD rest)
  | '\'' :: '\'' :: '\'' :: rest => longString? '\'' true limit ((lineEnd? rest).getD rest)
  | '"' :: rest => string? '"' false limit rest
  | '\'' :: rest => string? '\'' true limit rest
  | _ => none

/-! ## §3 Values -/

/-- A truth value. -/
def bool? : Reader Bool
  | 't' :: 'r' :: 'u' :: 'e' :: rest => some (true, rest)
  | 'f' :: 'a' :: 'l' :: 's' :: 'e' :: rest => some (false, rest)
  | _ => none

/-- The strings of a list up to its closing bracket, with commas between them and perhaps one
behind the last. -/
def items? : (limit : Nat) → Reader (List String)
  | 0, _ => none
  | limit + 1, text =>
    match skipBlanks limit text with
    | ']' :: rest => some ([], rest)
    | text => do
      let (item, rest) ← text? limit text
      let item := String.ofList item
      match skipBlanks limit rest with
      | ']' :: rest => some ([item], rest)
      | ',' :: rest => do
        let (items, rest) ← items? limit rest
        return (item :: items, rest)
      | _ => none

/-- A list of strings. -/
def list? (limit : Nat) : Reader (List String)
  | '[' :: rest => items? limit rest
  | _ => none

/-! ## §4 Settings -/

/-- A character of a key without quotes. -/
def isKeyPart (c : Char) : Bool :=
  Text.isNamePart c || c == '-'

/-- A key, with or without quotes. -/
def key? (limit : Nat) : Reader (List Char)
  | '"' :: rest => string? '"' false limit rest
  | '\'' :: rest => string? '\'' true limit rest
  | text =>
    let key := text.takeWhile isKeyPart
    if key.isEmpty then none else some (key, text.dropWhile isKeyPart)

/-- What a configuration file may set. -/
inductive Setting where
  | functions (paths : List String)
  | sideBySide (b : Bool)

/-- A key, an equals sign and the value that belongs to the key. -/
def setting? (limit : Nat) : Reader Setting := fun text => do
  let (key, rest) ← key? limit text
  match skipSpace rest with
  | '=' :: rest =>
    let value := skipSpace rest
    if String.ofList key = "functions" then (list? limit value).map fun r => (.functions r.1, r.2)
    else if String.ofList key = "side_by_side" then (bool? value).map fun r => (.sideBySide r.1, r.2)
    else none
  | _ => none

/-- The settings of a file, one on each line at most. -/
def settings? : (limit : Nat) → List Char → Option (List Setting)
  | 0, _ => none
  | limit + 1, text =>
    match skipSpace text with
    | [] => some []
    | text => do
      let (found, rest) ←
        if text.head? == some '#' || (lineEnd? text).isSome then some ([], text)
        else (setting? limit text).map fun r => ([r.1], r.2)
      match skipComment (skipSpace rest) with
      | [] => return found
      | rest => do
        let rest ← lineEnd? rest
        return found ++ (← settings? limit rest)

/-- The settings in the text of a file, which may begin with a byte order mark. -/
def read? (text : String) : Option (List Setting) :=
  match text.toList with
  | '\ufeff' :: rest => settings? (rest.length + 1) rest
  | text => settings? (text.length + 1) text

end SumSheet.Config
