/-
SumSheet.Interactive — editing a document by typing.

What is typed is a new line of the sheet, unless it begins with a colon;
then it is a command, which edits or shows the sheet. Lines go by their
position, counted from one.

`parse` reads a command, `apply` carries it out, and `run` goes through
the lines of an input until it ends or says that it does. A command that
fails is answered with the reason, and the session goes on with the
document that it leaves behind.

On the screen stands more than the answers: what evaluations write comes
in front of the answer to the line of input that made them.

  §1 Commands — what can be typed, and how it is read.
  §2 Help     — the text that lists the commands.
  §3 Answers  — what a command does to a document, and what it prints.
  §4 Sessions — the whole input.
-/
import SumSheet.Layout

namespace SumSheet.Interactive

open Text

/-! ## §1 Commands -/

/-- What can be typed. -/
inductive Command where
  | append (text : String)
  | list
  | edit (line : Nat) (text : String)
  | insert (line : Nat) (text : String)
  | delete (line : Nat)
  | clear
  | functions (path : String)
  | reload
  | help
  | quit
  deriving DecidableEq, Repr

/-- Why what is typed is not a command. -/
inductive CommandError where
  | unknown (name : String)
  | missingLineNumber (command : String)
  | invalidLineNumber (text : String)
  | missingPath
  deriving DecidableEq, Repr

/-- The text of an error. -/
def CommandError.message : CommandError → String
  | unknown name => "Unknown command: :" ++ name
  | missingLineNumber command => ":" ++ command ++ " requires a line number"
  | invalidLineNumber text => "Invalid line number: " ++ text
  | missingPath => ":functions requires a file path"

/-- The greatest line number that can be typed. -/
def greatestLineNumber : Nat := 18446744073709551615

/-- The number that a text spells: decimal digits, with a plus in front of them or not. -/
def number? (text : List Char) : Option Nat :=
  let digits := match text with
    | '+' :: digits => digits
    | digits => digits
  if digits.isEmpty || !digits.all isAsciiDigit then none
  else
    let n := Number.ofDigits digits
    if n ≤ greatestLineNumber then some n else none

/-- The word at the front of a text, and what stands behind the blanks that follow it. -/
def splitWord (text : List Char) : List Char × List Char :=
  (text.takeWhile (!isBlank ·), trimStart (text.dropWhile (!isBlank ·)))

/-- The line number at the front of the arguments of a command. -/
def lineNumber (command : String) (args : List Char) : Except CommandError Nat :=
  if args.isEmpty then .error (.missingLineNumber command)
  else
    let word := (splitWord args).1
    match number? word with
    | some (n + 1) => .ok (n + 1)
    | _ => .error (.invalidLineNumber (String.ofList word))

/-- The command with this name and these arguments. -/
def command (name : String) (args : List Char) : Except CommandError Command := do
  let text := String.ofList (splitWord args).2
  match name with
  | "l" | "list" => return .list
  | "e" | "edit" => return .edit (← lineNumber "edit" args) text
  | "i" | "insert" => return .insert (← lineNumber "insert" args) text
  | "d" | "delete" => return .delete (← lineNumber "delete" args)
  | "clear" => return .clear
  | "f" | "functions" =>
    if args.isEmpty then throw .missingPath else return .functions (String.ofList args)
  | "reload" => return .reload
  | "h" | "help" => return .help
  | "q" | "quit" => return .quit
  | name => throw (.unknown name)

/-- Reads what is typed. -/
def parse (input : String) : Except CommandError Command :=
  match trimStart input.toList with
  | ':' :: rest =>
    let (name, args) := splitWord (trim rest)
    command (String.ofList name) args
  | _ => .ok (.append input)

/-! ## §2 Help -/

/-- The width of the names of functions. -/
def nameWidth : Nat := 8

/-- The help text. -/
def helpText : String :=
  Layout.rows ([
    "Commands:",
    "  <text>              append a line",
    "  :list               show all lines with results",
    "  :edit N <text>      replace line N",
    "  :insert N <text>    insert a line after line N",
    "  :delete N           delete line N",
    "  :clear              start an empty sheet",
    "  :functions <file>   load custom Rhai functions",
    "  :reload             reload custom functions",
    "  :quit               exit",
    "",
    "Functions:"]
    ++ builtins.map (fun b => "  " ++ Layout.padEnd nameWidth b.name ++ " " ++ b.description)
    ++ ["", "Percentages: 20% of 50, 80 + 15%, 80 - 15%, 25% off 80"])

/-! ## §3 Answers -/

/-- Why a command cannot be carried out. -/
inductive Error where
  | command (cause : CommandError)
  | noLine (line size : Nat)
  | document (cause : Document.Error)

/-- The text of an error. -/
def Error.message : Error → String
  | command cause => cause.message
  | noLine line size => "No line " ++ toString line ++ " (sheet has " ++ toString size ++ " lines)"
  | document cause => cause.message

/-- What an error has to say besides. -/
def Error.entries : Error → List Journal.Entry
  | document cause => cause.entries
  | _ => []

variable [Engine]

/-- What is done in answer to a command. -/
abbrev Turn := Document.Action Error

/-- Does an operation on the document. -/
def Turn.of {α : Type} (op : Document → Document.Answer Document.Error α) : Turn α := fun doc =>
  ((op doc).result.mapError .document, (op doc).document)

/-- The id of the line at a position. -/
def idAt (line : Nat) : Turn Nat := do
  match (← get).lines[line - 1]? with
  | some l => return l.id
  | none => throw (.noLine line (← get).size)

/-- The listing without the blanks and line ends at its end. -/
def listing (doc : Document) : String :=
  String.ofList (trimEnd (Layout.listing doc).toList)

/-- The result of a line as it is shown. -/
def resultText (doc : Document) (id : Nat) : String :=
  ((doc.result? id).map ResultLine.text).getD ""

/-- A new line at the end; gives its id. -/
def push (text : String) : Turn Nat :=
  modifyGet (·.push text)

/-- A new line at the end. A fresh sheet has one empty line, which is filled first. -/
def append (text : String) : Turn Nat := do
  match (← get).lines with
  | [only] =>
    if only.text.isEmpty then
      Turn.of (·.setText only.id text)
      return only.id
    else push text
  | _ => push text

/-- What a command prints, or `none` if it ends the session. -/
def apply (files : FileTree) (command : Command) : Turn (Option String) := do
  match command with
  | .append text =>
    let id ← append text
    return some (resultText (← get) id)
  | .list => return some (listing (← get))
  | .edit line text =>
    let id ← idAt line
    Turn.of (·.setText id text)
    return some (listing (← get))
  | .insert line text =>
    let id ← idAt line
    let _ ← Turn.of (·.insertAfter id text)
    return some (listing (← get))
  | .delete line =>
    let id ← idAt line
    Turn.of (·.remove id)
    return some (listing (← get))
  | .clear =>
    modify (·.replaceAll [])
    return some ""
  | .functions path =>
    let path ← Turn.of (·.loadFunctions files path)
    return some (listing (← get) ++ "\nLoaded " ++ path)
  | .reload =>
    let count ← Turn.of (·.reloadFunctions files)
    return some ("Reloaded " ++ toString count ++ " functions file(s)")
  | .help => return some helpText
  | .quit => return none

/-! ## §4 Sessions -/

/-- The first line of a session. -/
def banner : String := "calcsheet - type :help for commands"

/-- What is done in answer to what is typed. -/
def turn (files : FileTree) (input : String) : Turn (Option String) := do
  apply files (← (parse input).mapError Error.command)

/-- What a line of input prints, and the document behind it; `none` if it ends the session. -/
def respond (files : FileTree) (doc : Document) (input : String) : Option (String × Document) :=
  match doc.carryOut (turn files input) with
  | ⟨.ok none, _⟩ => none
  | ⟨.ok (some text), doc⟩ => some (if text.isEmpty then "" else text ++ "\n", doc)
  | ⟨.error e, doc⟩ =>
    some ("Error: " ++ e.message ++ "\n", { doc with journal := doc.journal ++ e.entries })

/-- What evaluations have written from the first document to the second, on lines of their own. -/
def writtenSince (before after : Document) : String :=
  Layout.rows (after.written.drop before.written.length)

/-- How a session went. -/
structure Session where
  output : String
  /-- The output, and between its lines what evaluations have written. -/
  screen : String
  document : Document
  /-- A command has ended it, not the end of the input. -/
  quit : Bool

/-- The session in which these lines are typed. -/
def respondAll (files : FileTree) (doc : Document) : List String → Session
  | [] => ⟨"", "", doc, false⟩
  | input :: rest =>
    match respond files doc input with
    | none => ⟨"", "", doc, true⟩
    | some (text, next) =>
      let session := respondAll files next rest
      { session with
        output := text ++ session.output
        screen := writtenSince doc next ++ text ++ session.screen }

/-- A whole session, from the banner on. -/
def run (files : FileTree) (doc : Document) (inputs : List String) : Session :=
  let session := respondAll files doc inputs
  { session with
    output := banner ++ "\n" ++ session.output
    screen := banner ++ "\n" ++ session.screen }

end SumSheet.Interactive
