/-
SumSheet.Formula — the notation of sheet expressions, and how it is put
into the notation of scripts.

An expression on a sheet is written like on a calculator. Scripts, by
which it is evaluated, have a notation of their own, and three things
are written differently there:

* a number always has a point with a digit on each side: `1` is `1.0`,
  `.5` is `0.5`, `5.` is `5.0`;
* a power is written `**`, not `^`;
* a variable carries the mark `v_`, which keeps it apart from the words
  that scripts reserve. A name in front of a parenthesis is that of a
  function and carries no mark.

`pieces` cuts an expression into names, numbers, power signs and all
other characters, at each place the longest piece that fits.
`Piece.script` is one piece in the notation of scripts and `toScript` the
whole expression.
-/
import SumSheet.Text.CodePoints

namespace SumSheet

open Text

namespace Formula

/-! ## §1 Pieces -/

/-- A number as it is written: digits, perhaps a point and more digits, perhaps an exponent with
its letter and sign. -/
structure Numeral where
  whole : List Char
  fraction : List Char
  exponent : List Char
  deriving DecidableEq, Repr

/-- A piece of an expression. -/
inductive Piece where
  /-- A name; `called` if the next character that is not blank opens a parenthesis. -/
  | name (text : List Char) (called : Bool)
  | number (numeral : Numeral)
  | power
  | other (c : Char)
  deriving DecidableEq, Repr

/-- The exponent at the front of a text, with its letter; empty if there is none. -/
def exponentOf (text : List Char) : List Char :=
  match text with
  | e :: rest =>
    if e == 'e' || e == 'E' then
      match rest with
      | sign :: behind =>
        if sign == '+' || sign == '-' then
          let digits := behind.takeWhile isDigit
          if digits.isEmpty then [] else e :: sign :: digits
        else
          let digits := rest.takeWhile isDigit
          if digits.isEmpty then [] else e :: digits
      | [] => []
    else []
  | [] => []

/-- The number at the front of a text, and the text behind it. -/
def numeral? (text : List Char) : Option (Numeral × List Char) :=
  let whole := text.takeWhile isDigit
  let rest := text.dropWhile isDigit
  let (fraction, rest, pointed) :=
    match rest with
    | '.' :: behind => (behind.takeWhile isDigit, behind.dropWhile isDigit, true)
    | _ => ([], rest, false)
  if whole.isEmpty && (!pointed || fraction.isEmpty) then none
  else
    let exponent := exponentOf rest
    some (⟨whole, fraction, exponent⟩, rest.drop exponent.length)

/-- The next character that is not blank opens a parenthesis. -/
def opensCall (text : List Char) : Bool :=
  (trimStart text).head? == some '('

/-- The piece at the front of a text that begins with `c`, and the text behind it. -/
def nextPiece (c : Char) (rest : List Char) : Piece × List Char :=
  if isNameStart c then
    let behind := rest.dropWhile isNamePart
    (.name (c :: rest.takeWhile isNamePart) (opensCall behind), behind)
  else
    match numeral? (c :: rest) with
    | some (numeral, behind) => (.number numeral, behind)
    | none => if c == '^' then (.power, rest) else (.other c, rest)

/-- The first pieces of a text, at most `limit` of them. -/
def piecesUpTo : (limit : Nat) → List Char → List Piece
  | 0, _ => []
  | _, [] => []
  | limit + 1, c :: rest =>
    let (piece, behind) := nextPiece c rest
    piece :: piecesUpTo limit behind

/-- The pieces of a text. Each of them takes at least one character. -/
def pieces (text : List Char) : List Piece :=
  piecesUpTo text.length text

/-- The names that occur in a text. -/
def names (text : List Char) : List (List Char) :=
  (pieces text).filterMap fun
    | .name text _ => some text
    | _ => none

/-! ## §2 The notation of scripts -/

/-- The mark of a variable. -/
def variableMark : List Char := ['v', '_']

/-- The name of a sheet variable in a script. -/
def variableName (name : List Char) : List Char :=
  variableMark ++ name

/-- The name on the sheet of a variable in a script. A name without the mark is its own. -/
def sheetName (name : List Char) : List Char :=
  match name with
  | 'v' :: '_' :: rest => rest
  | _ => name

/-- The digits, or a zero if there are none. -/
def orZero (digits : List Char) : List Char :=
  if digits.isEmpty then ['0'] else digits

/-- The number in the notation of scripts. -/
def Numeral.script (n : Numeral) : List Char :=
  orZero n.whole ++ '.' :: (orZero n.fraction ++ n.exponent)

/-- The piece in the notation of scripts. -/
def Piece.script : Piece → List Char
  | .name text called => if called then text else variableName text
  | .number numeral => numeral.script
  | .power => ['*', '*']
  | .other c => [c]

/-- The expression in the notation of scripts. -/
def toScript (text : List Char) : List Char :=
  (pieces text).flatMap Piece.script

end Formula

end SumSheet
