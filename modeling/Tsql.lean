import Tsql.Main
import Tsql.Options
import Tsql.Document.Atom
import Tsql.Proofs.Extent
import Tsql.Proofs.Occurrence
import Tsql.Proofs.Numeral
import Tsql.Proofs.Scan
import Tsql.Proofs.Seam
import Tsql.Proofs.Reading
import Tsql.Proofs.SourceMap
import Tsql.Proofs.Trace
import Tsql.Proofs.Expansion
import Tsql.Proofs.CommentMarks
import Tsql.Proofs.ExpansionOutcome
import Tsql.Proofs.GuardText
import Tsql.Proofs.Quoting
import Tsql.Proofs.GuardReading
import Tsql.Proofs.Taking
import Tsql.Proofs.GuardPieces
import Tsql.Proofs.Nesting
import Tsql.Proofs.GuardNesting
import Tsql.Proofs.Pairing
import Tsql.Proofs.StructureProblems
import Tsql.Proofs.Renaming
import Tsql.Proofs.GuardSeparators
import Tsql.Proofs.NameForms
import Tsql.Proofs.ProcedureNames
import Tsql.Proofs.ProcedureNormal
import Tsql.Proofs.ProcedureStretches
import Tsql.Proofs.GuardHeads
import Tsql.Proofs.GuardPlaces
import Tsql.Proofs.GuardNames
import Tsql.Proofs.GuardTokens
import Tsql.Proofs.Actions
import Tsql.Proofs.TemplateSegments
import Tsql.Proofs.TemplateGrammar
import Tsql.Proofs.CommentedRegion
import Tsql.Proofs.WhiteSpace
import Tsql.Proofs.FunctionHeaders
import Tsql.Proofs.Pipeline
import Tsql.Proofs.TemplateRendering
import Tsql.Proofs.PathParts
import Tsql.Proofs.TreePaths
import Tsql.Proofs.TreeChanges
import Tsql.Proofs.SavedScripts
import Tsql.Proofs.NamesAhead
import Tsql.Proofs.Lookups
import Tsql.Proofs.TemplatePlaces
import Tsql.Proofs.TemplateJoining
import Tsql.Proofs.ElseIf
import Tsql.Proofs.BatchMarks
import Tsql.Proofs.Overrides
import Tsql.Proofs.OpenBlocks
import Tsql.Proofs.TemplateFaults
import Tsql.Proofs.Rounding
import Tsql.Proofs.ShortestDigits
import Tsql.Proofs.NumberText
import Tsql.Proofs.NumberTruth
import Tsql.Proofs.Doubling
import Tsql.Proofs.Lookahead
import Tsql.Proofs.Utf16Units
import Tsql.Proofs.ScriptBytes
import Tsql.Proofs.FoundScripts
