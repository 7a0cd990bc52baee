import TensorGraph.Builder.Basic
import TensorGraph.Builder.IndexedTable
import TensorGraph.Builder.Initializers
import TensorGraph.Builder.Level
import TensorGraph.Builder.NameOrder
import TensorGraph.Builder.Resolution
import TensorGraph.CommandLine.Arguments
import TensorGraph.CommandLine.FileTree
import TensorGraph.CommandLine.Path
import TensorGraph.CommandLine.Run
import TensorGraph.CommandLine.Table
import TensorGraph.Conversion.Convert
import TensorGraph.Conversion.Options
import TensorGraph.Failure
import TensorGraph.Json.Basic
import TensorGraph.Json.Document
import TensorGraph.Json.Printer
import TensorGraph.Json.Token
import TensorGraph.Keyed
import TensorGraph.Log
import TensorGraph.Lowering.Basic
import TensorGraph.Lowering.Handler
import TensorGraph.Lowering.Registry
import TensorGraph.Lowering.State
import TensorGraph.Main
import TensorGraph.Model.Basic
import TensorGraph.Model.Check
import TensorGraph.Model.Codec
import TensorGraph.Model.ConstantReport
import TensorGraph.Model.DeadNodes
import TensorGraph.NamePool
import TensorGraph.Number.Binary64
import TensorGraph.Number.Decimal
import TensorGraph.Number.Shortest
import TensorGraph.Program.Basic
import TensorGraph.Program.Recording
import TensorGraph.Program.Trace
import TensorGraph.Record
import TensorGraph.Shape.Dim
import TensorGraph.Shape.Spec
import TensorGraph.Shape.Symbols
import TensorGraph.Tensor.Basic
import TensorGraph.Tensor.DType
import TensorGraph.Text.Blank
import TensorGraph.Text.CodeRange
import TensorGraph.Text.Invisible
import TensorGraph.Text.Mark
import TensorGraph.Text.Numeral
import TensorGraph.Text.Quoted
import TensorGraph.Text.Unassigned
import TensorGraph.Proofs.LocalNames
import TensorGraph.Proofs.Scope
import TensorGraph.Proofs.Shared
import TensorGraph.Proofs.NumberedSymbols
import TensorGraph.Proofs.Translation
import TensorGraph.Proofs.Draft
import TensorGraph.Proofs.Implements
import TensorGraph.Proofs.FunctionTable
import TensorGraph.Proofs.Lowered
import TensorGraph.Proofs.Calls
import TensorGraph.Proofs.Conversion
import TensorGraph.Proofs.DeadNodes
import TensorGraph.Proofs.Validity
import TensorGraph.Proofs.ModelEvaluation
import TensorGraph.Proofs.ProgramEvaluation
import TensorGraph.Proofs.Meaning
import TensorGraph.Proofs.TypedRecords
import TensorGraph.Proofs.Totality
import TensorGraph.Proofs.TotalConversion
import TensorGraph.Proofs.RenamedLevels
import TensorGraph.Proofs.UniqueFunctions
import TensorGraph.Proofs.FunctionSharing
import TensorGraph.Proofs.Elimination
import TensorGraph.Proofs.DistinctNames
import TensorGraph.Proofs.SingleAssignment
import TensorGraph.Proofs.TypingRules
import TensorGraph.Proofs.ValueTypes
import TensorGraph.Proofs.LevelTypes
import TensorGraph.Proofs.WellTyped
import TensorGraph.Proofs.Relabeling
import TensorGraph.Proofs.RelabeledLowering
import TensorGraph.Proofs.SymbolNames
import TensorGraph.Proofs.HeldVariables
import TensorGraph.Proofs.Interface
import TensorGraph.Proofs.Instantiation
import TensorGraph.Proofs.ReachedLevels
import TensorGraph.Proofs.LeakedVariables
import TensorGraph.Proofs.SameBodies
import TensorGraph.Proofs.BuilderSteps
import TensorGraph.Proofs.BuilderHistories
import TensorGraph.Proofs.UnsitedSteps
import TensorGraph.Proofs.FailureSites
import TensorGraph.Proofs.ConstantOrder
import TensorGraph.Proofs.AlikeLevels
import TensorGraph.Proofs.SharedCalls
import TensorGraph.Proofs.Broadcasting
import TensorGraph.Proofs.ExactElimination
import TensorGraph.Proofs.MergedLevels
import TensorGraph.Proofs.OfferedRecords
import TensorGraph.Proofs.LeastFreeNames
import TensorGraph.Proofs.ExactChecking
import TensorGraph.Proofs.FunctionRecords
import TensorGraph.Proofs.ResolvedOutputs
import TensorGraph.Proofs.FailedOperations
import TensorGraph.Proofs.StoredConstants
import TensorGraph.Proofs.WrittenShapes
import TensorGraph.Proofs.TensorSizes
import TensorGraph.Proofs.CapturedConstants
import TensorGraph.Proofs.ReportedConstants
