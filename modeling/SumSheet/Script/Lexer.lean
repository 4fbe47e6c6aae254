/-
SumSheet.Script.Lexer — from the text of a script to its tokens.

`tokenize` cuts a text into tokens and passes over white space and
comments. Only ASCII white space separates tokens, and only inside
strings and comments may other characters stand that have no meaning.

  §1 Comments and white space
  §2 Numbers
  §3 Strings and characters
  §4 Words and signs
  §5 A text

Every scanner takes the text that is left and gives back what it leaves.

Left out: whole numbers in hexadecimal, octal or binary digits (`0x1f`),
a backslash that carries a string on to the next line, and expressions
inside a literal string, where `${x}` stands for itself.
-/
import SumSheet.Script.Token
import SumSheet.Text.CodePoints
import SumSheet.Number.Decimal

namespace SumSheet.Script

open Text Number

/-- Why a text has no tokens. -/
inductive LexError where
  | unknownCharacter (c : Char)
  | reservedSign
  | malformedName (name : String)
  | malformedNumber
  | malformedEscape
  | malformedCharacter
  | unterminatedString
  deriving DecidableEq, Repr

/-- The text of the cause. -/
def LexError.message : LexError → String
  | unknownCharacter c => "Unexpected character: " ++ String.singleton c
  | reservedSign => "Reserved symbol"
  | malformedName name => "Invalid name: " ++ name
  | malformedNumber => "Invalid number"
  | malformedEscape => "Invalid escape sequence"
  | malformedCharacter => "Invalid character literal"
  | unterminatedString => "Open string is not terminated"

/-! ## §1 Comments and white space -/

/-- White space between tokens: space, tab, line feed, form feed and carriage return. -/
def isGap (c : Char) : Bool :=
  c == ' ' || c == '\t' || c == '\n' || c == '\x0c' || c == '\r'

/-- The text behind a comment that reaches to the end of its line. -/
def afterLineComment : List Char → List Char
  | [] => []
  | c :: rest => if c == '\n' || c == '\r' then rest else afterLineComment rest

/-- The text behind a comment, of which `depth + 1` are open. One that is never closed reaches to
the end of the text. -/
def afterBlockComment : (depth : Nat) → List Char → List Char
  | _, [] => []
  | depth, '/' :: '*' :: rest => afterBlockComment (depth + 1) rest
  | 0, '*' :: '/' :: rest => rest
  | depth + 1, '*' :: '/' :: rest => afterBlockComment depth rest
  | depth, _ :: rest => afterBlockComment depth rest

/-! ## §2 Numbers -/

/-- A digit, or the mark that may divide digits. -/
def isNumberPart (c : Char) : Bool :=
  isAsciiDigit c || c == '_'

/-- The digits of a run of digits and dividing marks. -/
def digitsOf (run : List Char) : List Char :=
  run.filter isAsciiDigit

/-- The greatest and the least whole number. -/
def greatestInt : Int := 9223372036854775807

@[inherit_doc greatestInt]
def leastInt : Int := -9223372036854775808

/-- The whole number is in range. -/
def inIntRange (n : Int) : Bool :=
  leastInt ≤ n && n ≤ greatestInt

/-- The fraction at the front of the text behind the whole digits: its digits and the text behind
it, or `none` if the number has no point. A point in front of a name or of another point is not
part of the number. -/
def fraction? : List Char → Option (List Char × List Char)
  | '.' :: rest =>
    match rest with
    | [] => some ([], [])
    | c :: _ =>
      if isAsciiDigit c then
        some (digitsOf (rest.takeWhile isNumberPart), rest.dropWhile isNumberPart)
      else if c == '.' || isNameStart c then none
      else some ([], rest)
  | _ => none

/-- The exponent at the front of a text: its value and the text behind it, or `none` if there is
none. A sign must be followed by digits. -/
def exponent? (text : List Char) : Except LexError (Option (Int × List Char)) :=
  match text with
  | e :: rest =>
    if e == 'e' || e == 'E' then
      match rest with
      | [] => .ok none
      | c :: behind =>
        if c == '+' || c == '-' then
          let digits := digitsOf (behind.takeWhile isNumberPart)
          if digits.isEmpty then .error .malformedNumber
          else
            let n : Int := ofDigits digits
            .ok (some (if c == '-' then -n else n, behind.dropWhile isNumberPart))
        else if isAsciiDigit c then
          .ok (some (ofDigits (digitsOf (rest.takeWhile isNumberPart)),
            rest.dropWhile isNumberPart))
        else .ok none
    else .ok none
  | [] => .ok none

/-- The number at the front of a text that begins with a digit. Without point and exponent it is a
whole number, if it is in range. -/
def lexNumber (text : List Char) : Except LexError (Token × List Char) := do
  let whole := digitsOf (text.takeWhile isNumberPart)
  let rest := text.dropWhile isNumberPart
  let pointed := fraction? rest
  let (fraction, rest) := pointed.getD ([], rest)
  let mantissa := ofDigits (whole ++ fraction)
  match ← exponent? rest with
  | some (e, rest) => return (.float (ofDecimal mantissa (e - fraction.length)), rest)
  | none =>
    if pointed.isNone && inIntRange mantissa then return (.int mantissa, rest)
    else return (.float (ofDecimal mantissa (-fraction.length)), rest)

/-! ## §3 Strings and characters -/

/-- The value of a hexadecimal digit. -/
def hexValue? (c : Char) : Option Nat :=
  if isAsciiDigit c then some (digitValue c)
  else if 'a' ≤ c && c ≤ 'f' then some (c.toNat - 'a'.toNat + 10)
  else if 'A' ≤ c && c ≤ 'F' then some (c.toNat - 'A'.toNat + 10)
  else none

/-- The number that exactly `count` hexadecimal digits spell, and the text behind them. -/
def hexDigits? : (count acc : Nat) → List Char → Option (Nat × List Char)
  | 0, acc, text => some (acc, text)
  | count + 1, acc, c :: rest =>
    match hexValue? c with
    | some d => hexDigits? count (16 * acc + d) rest
    | none => none
  | _ + 1, _, [] => none

/-- The character behind a backslash, and the text behind it. -/
def escape? (quote : Char) : List Char → Option (Char × List Char)
  | [] => none
  | c :: rest =>
    if c == quote || c == '\\' then some (c, rest)
    else if c == 't' then some ('\t', rest)
    else if c == 'n' then some ('\n', rest)
    else if c == 'r' then some ('\r', rest)
    else if c == 'x' || c == 'u' || c == 'U' then
      let count := if c == 'x' then 2 else if c == 'u' then 4 else 8
      match hexDigits? count 0 rest with
      | some (point, rest) =>
        if point.isValidChar then some (Char.ofNat point, rest) else none
      | none => none
    else none

/-- The string whose content begins here, up to its closing quote. A quote written twice stands
for itself, and a carriage return in front of a line feed is left out. If the string is `literal`,
as between backticks, it knows no escapes and may go over several lines. -/
def lexString (quote : Char) (literal : Bool) :
    (limit : Nat) → List Char → Except LexError (List Char × List Char)
  | 0, _ => .error .unterminatedString
  | _, [] => .error .unterminatedString
  | limit + 1, c :: rest =>
    if c == quote then
      match rest with
      | d :: behind =>
        if d == quote then (lexString quote literal limit behind).map fun r => (c :: r.1, r.2)
        else .ok ([], rest)
      | [] => .ok ([], [])
    else if c == '\\' && !literal then
      match escape? quote rest with
      | some (d, rest) => (lexString quote literal limit rest).map fun r => (d :: r.1, r.2)
      | none => .error .malformedEscape
    else if c == '\n' && !literal then .error .unterminatedString
    else if c == '\r' && rest.head? == some '\n' then lexString quote literal limit rest
    else (lexString quote literal limit rest).map fun r => (c :: r.1, r.2)

/-- The content of a literal string begins on the next line if nothing else is left on this one. -/
def skipLineBreak : List Char → List Char
  | '\r' :: '\n' :: rest => rest
  | '\r' :: rest => rest
  | '\n' :: rest => rest
  | text => text

/-- The character literal whose content begins here. -/
def lexChar (limit : Nat) (text : List Char) : Except LexError (Token × List Char) :=
  match lexString '\'' false limit text with
  | .ok ([c], rest) => .ok (.char c, rest)
  | .ok _ => .error .malformedCharacter
  | .error e => .error e

/-! ## §4 Words and signs -/

/-- A name has a letter, and no digit comes before the first of them. -/
def isName (word : List Char) : Bool :=
  match word.dropWhile (· == '_') with
  | c :: _ => isAsciiLetter c
  | [] => false

/-- The word at the front of a text that begins with a letter or an underscore. -/
def lexWord (text : List Char) : Except LexError (Token × List Char) :=
  let word := text.takeWhile isNamePart
  if isName word then .ok (.word (String.ofList word), text.dropWhile isNamePart)
  else .error (.malformedName (String.ofList word))

/-- The sign at the front of a text. -/
def lexSign (text : List Char) : Except LexError (Token × List Char) :=
  match signs.find? (·.1.isPrefixOf text), text with
  | some (sign, some symbol), _ => .ok (.symbol symbol, text.drop sign.length)
  | some (_, none), _ => .error .reservedSign
  | none, c :: _ => .error (.unknownCharacter c)
  | none, [] => .error .reservedSign

/-! ## §5 A text -/

/-- The token at the front of a text that begins with `c` and has at most `limit` characters behind
it. -/
def lexToken (limit : Nat) (c : Char) (rest : List Char) : Except LexError (Token × List Char) :=
  if isAsciiDigit c then lexNumber (c :: rest)
  else if isNameStart c then lexWord (c :: rest)
  else if c == '"' then
    (lexString '"' false limit rest).map fun r => (.text (String.ofList r.1), r.2)
  else if c == '`' then
    (lexString '`' true limit (skipLineBreak rest)).map fun r =>
      (.text (String.ofList r.1), r.2)
  else if c == '\'' then lexChar limit rest
  else lexSign (c :: rest)

/-- The tokens of a text, which are found in at most `limit` steps. -/
def tokenizeWithin : (limit : Nat) → List Char → Except LexError (List Token)
  | _, [] => .ok []
  | 0, _ :: _ => .ok []
  | limit + 1, c :: rest =>
    if isGap c then tokenizeWithin limit rest
    else
      match c, rest with
      | '/', '/' :: behind => tokenizeWithin limit (afterLineComment behind)
      | '/', '*' :: behind => tokenizeWithin limit (afterBlockComment 0 behind)
      | c, rest => do
        let (token, behind) ← lexToken limit c rest
        return token :: (← tokenizeWithin limit behind)

/-- The tokens of a text. Each step takes at least one character. -/
def tokenize (text : List Char) : Except LexError (List Token) :=
  tokenizeWithin text.length text

end SumSheet.Script
