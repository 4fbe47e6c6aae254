/-
SumSheet.Script.Token — the words and signs of scripts.

`Symbol` lists the signs that have a meaning, and `signs` spells them.
The same list holds the signs that are reserved: they have no meaning,
but a text in which one occurs is cut there all the same, so `2--3` is
not `2 - -3`.

Names and keywords are one kind of token, `word`, because a name in
front of a parenthesis may be a word that is reserved elsewhere.
`keywords`, `reservedWords` and `callableWords` tell them apart.

Left out: `switch`, `do`, `until`, `try`, `catch`, `import`, `export`
and `as` are keywords here, so that they are no names, but nothing
begins with them; `=>`, `?.`, `?[` and `::` are reserved.
-/

namespace SumSheet.Script

/-! ## §1 Signs -/

/-- A sign with a meaning. -/
inductive Symbol where
  | plus | minus | times | divide | modulo | power | shiftLeft | shiftRight
  | bitAnd | bitOr | bitXor | and | or | not | coalesce
  | equal | notEqual | less | lessEqual | greater | greaterEqual
  | range | rangeThrough
  | assign | assignPlus | assignMinus | assignTimes | assignDivide | assignModulo | assignPower
  | assignShiftLeft | assignShiftRight | assignAnd | assignOr | assignXor
  | openParen | closeParen | unit | openBracket | closeBracket
  | openBrace | closeBrace | openMap
  | comma | semicolon | colon | period
  deriving DecidableEq, Repr

/-- A token of a script. -/
inductive Token where
  | word (text : String)
  | int (n : Int)
  | float (x : Float)
  | text (s : String)
  | char (c : Char)
  | symbol (s : Symbol)
  deriving DecidableEq

/-- Every sign with its meaning, or `none` if it is reserved. A sign stands in front of those it
begins with, so that the first that fits is the longest. -/
def signs : List (List Char × Option Symbol) := [
  (['*', '*', '='], some .assignPower), (['<', '<', '='], some .assignShiftLeft),
  (['>', '>', '='], some .assignShiftRight), (['=', '=', '='], none), (['!', '=', '='], none),
  (['.', '.', '.'], none), (['.', '.', '='], some .rangeThrough), ([':', ':', '<'], none),
  (['*', '*'], some .power), (['<', '<'], some .shiftLeft), (['>', '>'], some .shiftRight),
  (['&', '&'], some .and), (['|', '|'], some .or), (['?', '?'], some .coalesce),
  (['=', '='], some .equal), (['!', '='], some .notEqual), (['<', '='], some .lessEqual),
  (['>', '='], some .greaterEqual), (['.', '.'], some .range), (['+', '='], some .assignPlus),
  (['-', '='], some .assignMinus), (['*', '='], some .assignTimes),
  (['/', '='], some .assignDivide), (['%', '='], some .assignModulo),
  (['&', '='], some .assignAnd), (['|', '='], some .assignOr), (['^', '='], some .assignXor),
  (['(', ')'], some .unit), (['#', '{'], some .openMap), (['+', '+'], none), (['-', '-'], none),
  (['-', '>'], none), (['<', '-'], none), (['<', '|'], none), (['<', '>'], none),
  (['|', '>'], none), (['=', '>'], none), (['(', '*'], none), (['*', ')'], none),
  ([':', ':'], none), ([':', '='], none), ([':', ';'], none), (['!', '.'], none),
  (['?', '.'], none), (['?', '['], none), (['#', '!'], none),
  (['+'], some .plus), (['-'], some .minus), (['*'], some .times), (['/'], some .divide),
  (['%'], some .modulo), (['&'], some .bitAnd), (['|'], some .bitOr), (['^'], some .bitXor),
  (['!'], some .not), (['<'], some .less), (['>'], some .greater), (['='], some .assign),
  (['('], some .openParen), ([')'], some .closeParen), (['['], some .openBracket),
  ([']'], some .closeBracket), (['{'], some .openBrace), (['}'], some .closeBrace),
  ([','], some .comma), ([';'], some .semicolon), ([':'], some .colon), (['.'], some .period),
  (['~'], none), (['@'], none), (['$'], none), (['#'], none), (['?'], none)]

/-- The spelling of a sign with a meaning. -/
def Symbol.spelling (s : Symbol) : String :=
  match signs.find? (·.2 == some s) with
  | some (spelling, _) => String.ofList spelling
  | none => ""

/-! ## §2 Words -/

/-- The words of the language itself. None of them is a name. -/
def keywords : List String := [
  "true", "false", "let", "const", "if", "else", "switch", "do", "while", "until", "loop", "for",
  "in", "continue", "break", "return", "throw", "try", "catch", "import", "export", "as", "fn",
  "private"]

/-- Words kept back. None of them is the name of a variable. -/
def reservedWords : List String := [
  "public", "protected", "super", "new", "use", "module", "package", "var", "static", "shared",
  "with", "is", "goto", "match", "case", "default", "void", "null", "nil", "spawn", "thread",
  "go", "sync", "async", "await", "yield", "this"]

/-- Reserved words that are the names of functions. -/
def callableWords : List String := [
  "print", "debug", "type_of", "eval", "Fn", "call", "curry", "is_def_fn", "is_def_var",
  "is_shared"]

/-- The word may name a variable, a parameter or a function. -/
def isFreeName (word : String) : Bool :=
  !(keywords.contains word || reservedWords.contains word || callableWords.contains word)

/-- The word may stand in front of a list of arguments. -/
def isCallable (word : String) : Bool :=
  isFreeName word || callableWords.contains word

end SumSheet.Script
