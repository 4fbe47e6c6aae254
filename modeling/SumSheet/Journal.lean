/-
SumSheet.Journal — what the program says about its own work.

Warnings are meant for everybody. Details are meant for those who ask
for them, and name the part of the program that they come from.
-/

namespace SumSheet.Journal

/-- An entry of the journal. -/
inductive Entry where
  | warning (text : String)
  | detail (source text : String)
  deriving DecidableEq, Repr

/-- The entry is shown, also to those who do not ask for details. -/
def Entry.isShown (verbose : Bool) : Entry → Bool
  | warning _ => true
  | detail _ _ => verbose

/-- The entry on a line of its own. -/
def Entry.line : Entry → String
  | warning text => "WARN: " ++ text ++ "\n"
  | detail source text => "[DEBUG " ++ source ++ "] " ++ text ++ "\n"

/-- The entries that are shown, one on each line. -/
def render (verbose : Bool) (entries : List Entry) : String :=
  String.join ((entries.filter (Entry.isShown verbose)).map Entry.line)

/-- The pass over the lines of a sheet. -/
def pass : String := "calcsheet_engine::engine::recalc"

/-- The loading of functions into a document. -/
def loading : String := "calcsheet_core::document::io"

/-- The search for the functions that are always loaded. -/
def defaultFunctions : String := "calcsheet::default_functions"

end SumSheet.Journal
