/-
SumSheet.Layout — a document on the terminal.

Three renderings: the results alone, the results beside the lines, and a
listing that numbers the lines too. Columns are as wide as the longest
line; the width of a text is its number of characters.
-/
import SumSheet.Document

namespace SumSheet.Layout

/-- What divides a line from its result. -/
def separator : String := " │ "

/-- A text with blanks behind it, to a width. -/
def padEnd (width : Nat) (text : String) : String :=
  text ++ String.ofList (List.replicate (width - text.length) ' ')

/-- A text with blanks in front of it, to a width. -/
def padStart (width : Nat) (text : String) : String :=
  String.ofList (List.replicate (width - text.length) ' ') ++ text

/-- The width of the longest of some texts. -/
def widest (texts : List String) : Nat :=
  (texts.map String.length).foldl max 0

/-- The texts, one on each line. -/
def rows (texts : List String) : String :=
  String.join (texts.map (· ++ "\n"))

/-- A line and its result. -/
def row (width : Nat) (text result : String) : String :=
  padEnd width text ++ separator ++ result

/-- The width of a line number. -/
def numberWidth : Nat := 3

/-- A row with its number, counted from one. -/
def numbered (i : Nat) (row : String) : String :=
  padStart numberWidth (toString (i + 1)) ++ "  " ++ row

variable [Engine]

/-- The lines with their results, as rows. -/
def pairs (doc : Document) : List String :=
  let texts := doc.lines.map (·.text)
  List.zipWith (row (widest texts)) texts doc.resultTexts

/-- The results alone. -/
def results (doc : Document) : String :=
  rows doc.resultTexts

/-- The results beside the lines. -/
def sideBySide (doc : Document) : String :=
  rows (pairs doc)

/-- The results beside the numbered lines. -/
def listing (doc : Document) : String :=
  rows ((pairs doc).mapIdx numbered)

end SumSheet.Layout
