/-
SumSheet.Percent — percentages in the words people use for them.

Four forms are known, for a percentage `P` and a base number `N`:

  `P% of N`    the share of `N`,
  `N + P%`     `N` with the share added,
  `N - P%`     `N` with the share taken away,
  `P% off N`   the same, the other way round.

Both numbers are plain literals: digits, with a point only between
digits. A name never stands for one of them. A text has at most one of
the forms; `read?` finds it, and `value` computes it.
-/
import SumSheet.Text.CodePoints
import SumSheet.Number.Decimal

namespace SumSheet

open Text Number

/-- The four forms of a percentage. -/
inductive PercentForm where
  | share | increase | decrease | off
  deriving DecidableEq, Repr

/-- A percentage of a base number, in one of the forms. -/
structure Percentage where
  form : PercentForm
  percent : Float
  base : Float

/-- The result of a form. The share is computed in two orders: alone, the percentage is divided
first; added or taken away, the product is. -/
def PercentForm.apply (form : PercentForm) (percent base : Float) : Float :=
  match form with
  | .share => (percent / 100.0) * base
  | .increase => base + base * percent / 100.0
  | .decrease | .off => base - base * percent / 100.0

namespace Percentage

/-- The result of the percentage. -/
def value (p : Percentage) : Float :=
  p.form.apply p.percent p.base

/-! ## Reading -/

/-- A number literal at the front of the text: its value, and the text behind it. -/
def literal? (text : List Char) : Option (Float × List Char) :=
  let whole := text.takeWhile isAsciiDigit
  let rest := text.dropWhile isAsciiDigit
  if whole.isEmpty then none
  else
    match rest with
    | '.' :: behind =>
      let fraction := behind.takeWhile isAsciiDigit
      if fraction.isEmpty then some (ofDecimal (ofDigits whole) 0, rest)
      else
        some (ofDecimal (ofDigits (whole ++ fraction)) (-fraction.length),
          behind.dropWhile isAsciiDigit)
    | _ => some (ofDecimal (ofDigits whole) 0, rest)

/-- The text behind at least one blank. -/
def behindBlanks? : List Char → Option (List Char)
  | c :: cs => if isBlank c then some (trimStart cs) else none
  | [] => none

/-- The text behind a word that begins it. -/
def behindWord? : (word text : List Char) → Option (List Char)
  | [], text => some text
  | w :: word, c :: cs => if w == c then behindWord? word cs else none
  | _ :: _, [] => none

/-- `P% word N`, with blanks around the word. -/
def readPhrase? (word : List Char) (form : PercentForm) (text : List Char) : Option Percentage := do
  let (percent, text) ← literal? text
  let text ← behindWord? ['%'] text
  let text ← behindBlanks? text
  let text ← behindWord? word text
  let text ← behindBlanks? text
  let (base, text) ← literal? text
  if text.isEmpty then some ⟨form, percent, base⟩ else none

/-- `N sign P%`, with or without blanks around the sign. -/
def readChange? (sign : Char) (form : PercentForm) (text : List Char) : Option Percentage := do
  let (base, text) ← literal? text
  let text ← behindWord? [sign] (trimStart text)
  let (percent, text) ← literal? (trimStart text)
  let text ← behindWord? ['%'] text
  if text.isEmpty then some ⟨form, percent, base⟩ else none

/-- The percentage that the whole of a text spells. -/
def read? (text : List Char) : Option Percentage :=
  readPhrase? ['o', 'f'] .share text
    <|> readChange? '+' .increase text
    <|> readChange? '-' .decrease text
    <|> readPhrase? ['o', 'f', 'f'] .off text

end Percentage

/-- The value of a text that spells a percentage. -/
def percentageValue? (text : List Char) : Option Float :=
  (Percentage.read? text).map Percentage.value

end SumSheet
