/-
SumSheet.Text.LowerCase — lower-casing of text, for every script.

`lowerChar` gives the lower-case form of one character from the table of
runs. Two letters need more than that:

* `İ` (U+0130) becomes two characters, `i` and a combining dot;
* `Σ` becomes `ς` at the end of a word and `σ` elsewhere. It ends a word
  when a cased letter comes before it and none comes after it, where
  case-ignorable characters in between do not count (`endsWord`).

`lowerCase` walks a text from left to right and keeps the characters it
has passed, nearest first, because a sigma looks back at them.
-/
import SumSheet.Text.LetterClass
import SumSheet.Text.LowerCaseTable

namespace SumSheet.Text

/-! ## §1 One character -/

/-- The code point of the lower-case form. -/
def lowerPoint (point : Nat) : Nat :=
  if point < 0x80 then
    if 0x41 ≤ point ∧ point ≤ 0x5A then point + 0x20 else point
  else
    (lowerCaseRuns.findSome? (·.lower? point)).getD point

/-- The lower-case form of a letter that has one of a single character; any other character is
its own. -/
def lowerChar (c : Char) : Char :=
  Char.ofNat (lowerPoint c.toNat)

/-! ## §2 Sigma -/

/-- The nearest character that is not case-ignorable is a cased letter. -/
def nearestIsCased (cs : List Char) : Bool :=
  match cs.dropWhile isCaseIgnorable with
  | [] => false
  | c :: _ => isCased c

/-- A sigma between `before`, nearest first, and `after` is the last letter of a word. -/
def endsWord (before after : List Char) : Bool :=
  nearestIsCased before && !nearestIsCased after

/-! ## §3 A text -/

/-- The lower-case form of one character between its neighbours. -/
def lowerBetween (before : List Char) (c : Char) (after : List Char) : List Char :=
  if c == 'Σ' then [if endsWord before after then 'ς' else 'σ']
  else if c == 'İ' then ['i', '\u0307']
  else [lowerChar c]

/-- The lower-case form of `cs`, which stands behind `before`. -/
def lowerAfter (before : List Char) : List Char → List Char
  | [] => []
  | c :: cs => lowerBetween before c cs ++ lowerAfter (c :: before) cs

/-- The lower-case form of a text. -/
def lowerCase (cs : List Char) : List Char :=
  lowerAfter [] cs

/-- The lower-case form of a string. -/
def lower (s : String) : String :=
  String.ofList (lowerCase s.toList)

end SumSheet.Text
