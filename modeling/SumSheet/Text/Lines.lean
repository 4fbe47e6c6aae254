/-
SumSheet.Text.Lines — a text as a list of lines.

A line ends at a line feed, and a carriage return in front of it does
not belong to the line. What stands behind the last line feed is a line
too, unless it is empty.

The rule is the same for characters and for bytes, of which a text may
not be known to consist.
-/

namespace SumSheet.Text

variable {α : Type} [BEq α]

/-- A line without the carriage return at its end. -/
def dropReturn (cr : α) (line : List α) : List α :=
  if line.getLast? == some cr then line.dropLast else line

/-- The lines of an input with these signs for a line feed and a carriage return. The beginning of
the first line has been `read`, the last of it first. -/
def linesFrom (lf cr : α) (read : List α) : List α → List (List α)
  | [] => if read.isEmpty then [] else [read.reverse]
  | c :: rest =>
    if c == lf then dropReturn cr read.reverse :: linesFrom lf cr [] rest
    else linesFrom lf cr (c :: read) rest

/-- The lines of a text. -/
def lines (text : String) : List String :=
  (linesFrom '\n' '\r' [] text.toList).map String.ofList

/-- The lines of an input of bytes, each of them a text or not. -/
def byteLines (input : ByteArray) : List (Option String) :=
  (linesFrom 10 13 [] input.toList).map fun line => String.fromUTF8? ⟨line.toArray⟩

end SumSheet.Text
