import FrontEnd.Analysis
import FrontEnd.Proofs.Completeness
import FrontEnd.Proofs.Contents
import FrontEnd.Proofs.Declarations
import FrontEnd.Proofs.Derivation
import FrontEnd.Proofs.Erasure
import FrontEnd.Proofs.Fragments
import FrontEnd.Proofs.LexemeRules
import FrontEnd.Proofs.Locality
import FrontEnd.Proofs.NumberLiterals
import FrontEnd.Proofs.NumberValues
import FrontEnd.Proofs.Passing
import FrontEnd.Proofs.Printing
import FrontEnd.Proofs.PrintingModules
import FrontEnd.Proofs.Recovery
import FrontEnd.Proofs.Reparsing
import FrontEnd.Proofs.ReparsingModules
import FrontEnd.Proofs.RoundTrip
import FrontEnd.Proofs.Runs
import FrontEnd.Proofs.Scanning
import FrontEnd.Proofs.Shape
import FrontEnd.Proofs.Soundness
import FrontEnd.Proofs.Spelling
import FrontEnd.Proofs.Types
import FrontEnd.Proofs.Vocabulary
import FrontEnd.Proofs.Covering
import FrontEnd.Proofs.LexerStates
import FrontEnd.Proofs.LongestMatch
import FrontEnd.Proofs.Respacing
import FrontEnd.Proofs.Wording
import FrontEnd.Proofs.Conservativity
import FrontEnd.Proofs.Correspondence
import FrontEnd.Proofs.CorrespondingRuns
import FrontEnd.Proofs.Layout
import FrontEnd.Proofs.ErrorOrder
import FrontEnd.Proofs.Arena
import FrontEnd.Proofs.Resolution
import FrontEnd.Proofs.ModuleTypes
import FrontEnd.Proofs.Lowering
import FrontEnd.Proofs.DeclarationOrder
import FrontEnd.Proofs.Grouping
import FrontEnd.Proofs.SlotOwnership
import FrontEnd.Proofs.SourceSpans
import FrontEnd.Proofs.Stages
import FrontEnd.Proofs.Diagnostics
import FrontEnd.Proofs.Outlines
import FrontEnd.Proofs.TypeGrammar
import FrontEnd.Proofs.BuiltTrees
import FrontEnd.Proofs.TreeTokens
import FrontEnd.Proofs.TreeSpans
import FrontEnd.Proofs.Progress
import FrontEnd.Proofs.Termination
import FrontEnd.Proofs.CanonicalTypes
import FrontEnd.Proofs.LongestSeries
import FrontEnd.Proofs.LineColumns
import FrontEnd.Proofs.LexerDriving
import FrontEnd.Proofs.ByteLookups
import FrontEnd.Proofs.ColumnLimit
import FrontEnd.Proofs.Carets
import FrontEnd.Proofs.BraceDepth
import FrontEnd.Proofs.PrintedLines
import FrontEnd.Proofs.PrintedLayout
import FrontEnd.Proofs.Indentation
import FrontEnd.Proofs.FieldOrder
