import LinearProgram.Backend.Basic
import LinearProgram.Backend.Error
import LinearProgram.Backend.Recording
import LinearProgram.Backend.Service
import LinearProgram.Binary64.Arithmetic
import LinearProgram.Binary64.Nearest
import LinearProgram.Binary64.Parts
import LinearProgram.Column
import LinearProgram.Config
import LinearProgram.Decimal.Layout
import LinearProgram.Decimal.Numeral
import LinearProgram.Decimal.Shortest
import LinearProgram.Domain
import LinearProgram.Engine.BranchAndBound
import LinearProgram.Engine.Dictionary
import LinearProgram.Engine.Exact
import LinearProgram.Engine.Program
import LinearProgram.Engine.Relaxation
import LinearProgram.Event
import LinearProgram.Example.ProductionPlan
import LinearProgram.File.Codec
import LinearProgram.File.Format
import LinearProgram.File.Store
import LinearProgram.Identifier
import LinearProgram.Json.Decode
import LinearProgram.Json.Document
import LinearProgram.Json.Native
import LinearProgram.Json.Reader
import LinearProgram.Json.Writer
import LinearProgram.Model.Basic
import LinearProgram.Model.Error
import LinearProgram.Model.Expression
import LinearProgram.Model.Registry
import LinearProgram.Model.Relation
import LinearProgram.Model.Restore
import LinearProgram.Model.Run
import LinearProgram.Mps.Fault
import LinearProgram.Mps.Reader
import LinearProgram.Mps.Writer
import LinearProgram.Problem.Basic
import LinearProgram.Problem.Defect
import LinearProgram.Problem.Solution
import LinearProgram.Proofs.Additions
import LinearProgram.Proofs.Agreement
import LinearProgram.Proofs.BitPattern
import LinearProgram.Proofs.Bookkeeping
import LinearProgram.Proofs.BufferedCalls
import LinearProgram.Proofs.BuildRun
import LinearProgram.Proofs.BuildingCalls
import LinearProgram.Proofs.BuiltModels
import LinearProgram.Proofs.CallOutcome
import LinearProgram.Proofs.CallPlan
import LinearProgram.Proofs.ConstantValues
import LinearProgram.Proofs.Continuation
import LinearProgram.Proofs.Counting
import LinearProgram.Proofs.DefiningRows
import LinearProgram.Proofs.DefinitionalExtension
import LinearProgram.Proofs.DirectiveGrammar
import LinearProgram.Proofs.DirectiveLog
import LinearProgram.Proofs.DirectiveTrace
import LinearProgram.Proofs.Feasible
import LinearProgram.Proofs.FeasibleMeaning
import LinearProgram.Proofs.GeneratedNames
import LinearProgram.Proofs.Growth
import LinearProgram.Proofs.GuardFailure
import LinearProgram.Proofs.JsonText
import LinearProgram.Proofs.JsonTokens
import LinearProgram.Proofs.KeptInFiles
import LinearProgram.Proofs.LogErasure
import LinearProgram.Proofs.MpsColumns
import LinearProgram.Proofs.MpsComments
import LinearProgram.Proofs.MpsFaithful
import LinearProgram.Proofs.MpsInNativeForm
import LinearProgram.Proofs.MpsLines
import LinearProgram.Proofs.MpsNumbers
import LinearProgram.Proofs.MpsResaved
import LinearProgram.Proofs.MpsRoundTrip
import LinearProgram.Proofs.MpsSections
import LinearProgram.Proofs.NativeRoundTrip
import LinearProgram.Proofs.NearestNumber
import LinearProgram.Proofs.NumberOrder
import LinearProgram.Proofs.NumeralText
import LinearProgram.Proofs.Plan
import LinearProgram.Proofs.PlanDirectives
import LinearProgram.Proofs.Poisoning
import LinearProgram.Proofs.Resemblance
import LinearProgram.Proofs.Restoration
import LinearProgram.Proofs.SaveLoad
import LinearProgram.Proofs.Session
import LinearProgram.Proofs.ShortestDigits
import LinearProgram.Proofs.SingleRequests
import LinearProgram.Proofs.WordsAndLines
import LinearProgram.Row
import LinearProgram.Scalar
import LinearProgram.Solver.Choose
import LinearProgram.Solver.Service
import LinearProgram.Status
import LinearProgram.Text.Blank
import LinearProgram.Text.Case
import LinearProgram.Proofs.NativeFiles
import LinearProgram.Proofs.Handles
import LinearProgram.Proofs.VariableNames
import LinearProgram.Proofs.SolveStates
import LinearProgram.Proofs.LegalCalls
import LinearProgram.Proofs.ValidPrograms
import LinearProgram.Proofs.MpsTables
import LinearProgram.Proofs.MpsBounds
import LinearProgram.Proofs.BinaryColumns
import LinearProgram.Proofs.MpsStatements
import LinearProgram.Proofs.MpsPrefixes
import LinearProgram.Proofs.MpsCredits
import LinearProgram.Proofs.MpsStates
import LinearProgram.Proofs.MpsMeaning
import LinearProgram.Proofs.MpsRowNames
import LinearProgram.Proofs.ExtendedNumbers
import LinearProgram.Proofs.ExactReading
import LinearProgram.Proofs.EngineTranslation
import LinearProgram.Proofs.RowCoefficients
import LinearProgram.Proofs.KeptObjectives
import LinearProgram.Proofs.RefusedRequests
import LinearProgram.Proofs.NumberLine
import LinearProgram.Proofs.InferredDomains
import LinearProgram.Proofs.Reciprocals
import LinearProgram.Proofs.AcceptedDivisors
import LinearProgram.Proofs.GroupedSums
import LinearProgram.Proofs.LeastFreeNames
import LinearProgram.Proofs.DefectSites
import LinearProgram.Proofs.Validation
import LinearProgram.Json.Numerals
import LinearProgram.Proofs.RereadNumbers
import LinearProgram.Proofs.NameTables
