/-
SumSheet.Line — the lines of a sheet and how a line is understood.

A line is text with an identity. Before it is evaluated it is
`normalize`d: letters become lower case and the blanks around it go.
`classify` then tells an assignment `name = right side` from an
expression. It looks at the shape alone; whether the right side can be
evaluated is another question.

The shape of an assignment: an ASCII name, blanks, an equals sign,
blanks, and a right side that reaches to the end of the text, is not
empty and has no line break. The blanks behind the equals sign do not
belong to the right side. Only where nothing else is left does the last
of them stand in for it.
-/
import SumSheet.Text.LowerCase

namespace SumSheet

open Text

/-- A line of a sheet. -/
structure Line where
  id : Nat
  text : String
  deriving DecidableEq, Repr

namespace Line

/-- The lines with the given texts, which are numbered from one. -/
def numbered (texts : List String) : List Line :=
  texts.mapIdx fun i text => ⟨i + 1, text⟩

end Line

/-- How a line is understood. -/
inductive LineKind where
  | assignment (name right : List Char)
  | expression (text : List Char)
  deriving DecidableEq, Repr

/-- Lower case, and without the blanks at either end. -/
def normalize (text : List Char) : List Char :=
  trim (lowerCase text)

/-- The text behind an equals sign as the right side of an assignment. -/
def rightSide? (text : List Char) : Option (List Char) :=
  let right :=
    match trimStart text with
    | [] => text.getLast?.toList
    | c :: cs => c :: cs
  if right.isEmpty || right.contains '\n' then none else some right

/-- An assignment, or an expression if the text does not have the shape of one. -/
def classify (text : List Char) : LineKind :=
  let name := text.takeWhile isNamePart
  if (name.head?.map isNameStart).getD false then
    match trimStart (text.dropWhile isNamePart) with
    | '=' :: rest =>
      match rightSide? rest with
      | some right => .assignment name right
      | none => .expression text
    | _ => .expression text
  else .expression text

end SumSheet
