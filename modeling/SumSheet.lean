import SumSheet.Main
import SumSheet.Proofs.NormalForm
import SumSheet.Proofs.FloatBits
import SumSheet.Proofs.Rounding
import SumSheet.Proofs.Decimals
import SumSheet.Proofs.SignificantDigits
import SumSheet.Proofs.Arithmetic
import SumSheet.Proofs.ScriptNotation
import SumSheet.Proofs.ScriptTokens
import SumSheet.Proofs.ScriptReading
import SumSheet.Proofs.ExpressionValue
import SumSheet.Proofs.PassScope
import SumSheet.Proofs.InertLines
import SumSheet.Proofs.LetterCase
import SumSheet.Proofs.DocumentInvariant
import SumSheet.Proofs.DisplayText
import SumSheet.Proofs.CanonicalDisplay
import SumSheet.Proofs.CommandRows
import SumSheet.Proofs.PercentageShapes
import SumSheet.Proofs.Redisplay
import SumSheet.Proofs.FailedEdits
import SumSheet.Proofs.CommandAnswers
import SumSheet.Proofs.Sessions
import SumSheet.Proofs.TypedSheets
import SumSheet.Proofs.NumericResults
import SumSheet.Proofs.GrammarWalk
import SumSheet.Proofs.Tokenizing
import SumSheet.Proofs.LoadedFunctions
import SumSheet.Proofs.EvaluationWalk
import SumSheet.Proofs.VariablesRead
import SumSheet.Proofs.NamesRead
import SumSheet.Proofs.CommentMarks
import SumSheet.Proofs.Dependents
import SumSheet.Proofs.MergedScript
import SumSheet.Proofs.UnusedFunctions
import SumSheet.Proofs.MissingVariables
import SumSheet.Proofs.PercentageNotation
import SumSheet.Proofs.BatchRuns
import SumSheet.Proofs.AssignmentParts
import SumSheet.Proofs.NearestDoubles
import SumSheet.Proofs.PercentageReading
import SumSheet.Proofs.SheetScopes
import SumSheet.Proofs.UndoneEdits
import SumSheet.Proofs.OptionGroups
import SumSheet.Proofs.CommandNotation
import SumSheet.Proofs.DisplayOrder
import SumSheet.Proofs.RoundedArithmetic
import SumSheet.Proofs.DiscountBounds
import SumSheet.Proofs.PowersOfTen
import SumSheet.Proofs.DecimalPlaces
import SumSheet.Proofs.TokenImages
import SumSheet.Proofs.QuotedText
import SumSheet.Proofs.LastBindings
import SumSheet.Proofs.Columns
import SumSheet.Proofs.FolderPaths
import SumSheet.Proofs.ConfigLoading
