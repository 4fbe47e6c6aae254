/-
SumSheet.CommandLine — the program as it is started from a command line.

The arguments say where the sheet comes from, which functions are loaded
and how results are printed. `parse` reads them, and `run` does the work:
it takes all that the program can see as a value, the `Environment`, and
gives back all that it does, the `Exit`. To its output belongs what
evaluations write, which they do before a result can be printed.

  §1 Options      — the arguments and how they are read.
  §2 Usage        — the text that lists them.
  §3 Environments — what the program sees, and what it leaves behind.
  §4 Sources      — functions and sheets.
  §5 Runs         — from the options to the end.
-/
import SumSheet.Config.Basic
import SumSheet.Interactive
import SumSheet.Text.Lines

namespace SumSheet.CommandLine

open Text

/-! ## §1 Options -/

/-- What the arguments ask for. -/
structure Options where
  file : Option String := none
  commands : List String := []
  interactive : Bool := false
  sideBySide : Bool := false
  functions : List String := []
  noDefaultFunctions : Bool := false
  config : Option String := none
  noConfig : Bool := false
  verbose : Bool := false
  deriving DecidableEq, Repr

/-- Why there are no options to work with. -/
inductive Refusal where
  /-- The usage is asked for. -/
  | help
  /-- The arguments are wrong. -/
  | misuse (message : String)
  deriving DecidableEq, Repr

/-- The options that the arguments ask for, on top of those asked for so far. The first argument
that asks for the usage, or is wrong, decides. -/
def parseOnto (options : Options) : List String → Except Refusal Options
  | [] => .ok options
  | arg :: rest =>
    match arg with
    | "-h" | "--help" => .error .help
    | "-c" | "--command" =>
      match rest with
      | value :: rest => parseOnto { options with commands := options.commands ++ [value] } rest
      | [] => .error (.misuse "--command requires a value")
    | "-i" | "--interactive" => parseOnto { options with interactive := true } rest
    | "-s" | "--side-by-side" => parseOnto { options with sideBySide := true } rest
    | "-f" | "--functions" =>
      match rest with
      | value :: rest => parseOnto { options with functions := options.functions ++ [value] } rest
      | [] => .error (.misuse "--functions requires a file path")
    | "--no-default-functions" => parseOnto { options with noDefaultFunctions := true } rest
    | "--config" =>
      match rest with
      | value :: rest => parseOnto { options with config := some value } rest
      | [] => .error (.misuse "--config requires a file path")
    | "--no-config" => parseOnto { options with noConfig := true } rest
    | "-v" | "--verbose" => parseOnto { options with verbose := true } rest
    | arg =>
      if arg.toList.head? == some '-' && !(arg == "-" && options.file.isNone) then
        .error (.misuse ("Unknown option: " ++ arg))
      else if options.file.isSome then .error (.misuse ("Unexpected argument: " ++ arg))
      else parseOnto { options with file := some arg } rest

/-- The options that the arguments ask for. -/
def parse (args : List String) : Except Refusal Options :=
  parseOnto {} args

/-! ## §2 Usage -/

/-- The usage text. -/
def usage : String :=
  Layout.rows [
    "Usage: calcsheet [OPTIONS] [FILE]",
    "",
    "Arguments:",
    "  [FILE]                    Sheet to evaluate, one line per row ('-' for stdin)",
    "",
    "Options:",
    "  -c, --command <LINE>      Evaluate LINE as the next sheet row (can be repeated)",
    "  -i, --interactive         Edit the sheet interactively",
    "  -s, --side-by-side        Print input and result columns",
    "  -f, --functions <FILE>    Load custom Rhai functions (can be repeated)",
    "  --no-default-functions    Do not load default.rhai from the config dir",
    "  --config <FILE>           Read configuration from FILE",
    "  --no-config               Ignore the configuration file",
    "  -v, --verbose             Log evaluation details to stderr",
    "  -h, --help                Print help"]

/-! ## §3 Environments -/

/-- What the program sees. -/
structure Environment where
  files : FileTree
  /-- The folder with the configuration of the user. -/
  configFolder : String
  input : ByteArray
  /-- The input is typed on a terminal. -/
  terminal : Bool

/-- What the program leaves behind. -/
structure Exit where
  code : Nat
  output : String
  errors : String

/-- The end of a run without options. -/
def Refusal.exit : Refusal → Exit
  | help => ⟨0, "", usage⟩
  | misuse message => ⟨2, "", "Error: " ++ message ++ "\n" ++ usage⟩

/-! ## §4 Sources -/

/-- The configuration and the warnings about it. -/
def configOf (env : Environment) (options : Options) : Config × List String :=
  if options.noConfig then (.default, [])
  else
    match options.config with
    | some path => Config.load env.files path true
    | none => Config.load env.files (Path.join env.configFolder "config.toml") false

/-- The file with the functions that are always loaded, if it exists, and what there is to say
about it. -/
def defaultFunctions (env : Environment) (options : Options) : List String × List Journal.Entry :=
  let path := Path.join env.configFolder "default.rhai"
  if options.noDefaultFunctions then ([], [])
  else if env.files.isFile path then ([path], [])
  else ([], [.detail Journal.defaultFunctions ("no default functions file at " ++ path)])

/-- A failure: its text, and what else there is to say. -/
structure Failure where
  message : String
  entries : List Journal.Entry

/-- The text of an error on a document together with its cause. -/
def causeText : Document.Error → String
  | .file cause => (Document.Error.file cause).message ++ ": " ++ cause.message
  | e => e.message

section

variable [Engine]

/-- The document with the functions in these files. -/
def loadAll (files : FileTree) (doc : Document) : List String → Except Failure Document
  | [] => .ok doc
  | path :: rest =>
    match doc.loadFunctions files path with
    | ⟨.ok _, doc⟩ => loadAll files doc rest
    | ⟨.error e, doc⟩ =>
      .error ⟨"Failed to load functions from " ++ path ++ ": " ++ causeText e,
        doc.journal ++ e.entries⟩

end

/-- Where the sheet comes from. -/
inductive Source where
  | interactive
  | text (sheet : String)

/-- The sheet on the input. -/
def inputSheet (env : Environment) : Except String Source :=
  match FileTree.decode env.input with
  | .ok sheet => .ok (.text sheet)
  | .error e => .error ("Failed to read sheet from stdin: " ++ e.message)

/-- The sheet in a file; a single `-` means the input. -/
def fileSheet (env : Environment) (path : String) : Except String Source :=
  if path == "-" then inputSheet env
  else
    match env.files.readText path with
    | .ok sheet => .ok (.text sheet)
    | .error e => .error ("Failed to read " ++ path ++ ": " ++ e.message)

/-- Where the sheet comes from: the interactive mode goes before the lines among the arguments,
these before a file, and a file before the input. A terminal is interactive. -/
def sourceOf (env : Environment) (options : Options) : Except String Source :=
  if options.interactive then .ok .interactive
  else
    match options.commands, options.file with
    | [], some path => fileSheet env path
    | [], none => if env.terminal then .ok .interactive else inputSheet env
    | commands, _ => .ok (.text ("\n".intercalate commands))

/-! ## §5 Runs -/

/-- The last line about a failure. -/
def failureLine (message : String) : String :=
  "Error: " ++ message ++ "\n"

variable [Engine]

/-- A run that has loaded all functions and found its sheet. -/
structure Start where
  config : Config
  document : Document
  source : Source
  /-- What has been said before there was a document. -/
  said : List Journal.Entry

/-- Loads the functions and finds the sheet: the functions that are always loaded first, then those
of the configuration, then those among the arguments. -/
def start (env : Environment) (options : Options) : Except Failure Start :=
  let (config, warnings) := configOf env options
  let (always, entries) := defaultFunctions env options
  let said := warnings.map .warning ++ entries
  match loadAll env.files .new (always ++ config.functions ++ options.functions) with
  | .error e => .error { e with entries := said ++ e.entries }
  | .ok doc =>
    match sourceOf env options with
    | .error message => .error ⟨message, said ++ doc.journal⟩
    | .ok source => .ok ⟨config, doc, source, said⟩

/-- What a run does with its document: what it prints, the document behind it, how it fails if it
does so after all, and the code. -/
structure Work where
  output : String
  document : Document
  failure : Option String
  code : Nat

/-- Evaluates a sheet. The code tells whether a line fails. -/
def evaluate (sideBySide : Bool) (doc : Document) (sheet : String) : Work :=
  let doc := doc.replaceAll (lines sheet)
  let output := if sideBySide then Layout.sideBySide doc else Layout.results doc
  ⟨Layout.rows doc.written ++ output, doc, none, if doc.hasFailures then 1 else 0⟩

/-- Goes through the input as a session, up to a line that is not a text. -/
def converse (env : Environment) (doc : Document) : Work :=
  let inputs := byteLines env.input
  let texts := (inputs.takeWhile Option.isSome).filterMap id
  let session := Interactive.run env.files doc texts
  let output := Layout.rows doc.written ++ session.screen
  if session.quit || texts.length == inputs.length then ⟨output, session.document, none, 0⟩
  else ⟨output, session.document, some FileError.notText.message, 1⟩

/-- The work on the document that a run starts with. -/
def Start.work (start : Start) (env : Environment) (options : Options) : Work :=
  match start.source with
  | .interactive => converse env start.document
  | .text sheet => evaluate (options.sideBySide || start.config.sideBySide) start.document sheet

/-- The end of a run with these options. -/
def perform (env : Environment) (options : Options) : Exit :=
  match start env options with
  | .error e =>
    ⟨1, "", Journal.render options.verbose e.entries ++ failureLine e.message⟩
  | .ok start =>
    let work := start.work env options
    ⟨work.code, work.output,
      Journal.render options.verbose (start.said ++ work.document.journal)
        ++ ((work.failure.map failureLine).getD "")⟩

/-- The end of the program when it is started with these arguments. -/
def run (env : Environment) (args : List String) : Exit :=
  match parse args with
  | .error refusal => refusal.exit
  | .ok options => perform env options

end SumSheet.CommandLine
