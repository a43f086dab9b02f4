import FlowCompiler.Branch
import FlowCompiler.CommandLine
import FlowCompiler.Compile
import FlowCompiler.Decode.Document
import FlowCompiler.Decode.Error
import FlowCompiler.Decode.Record
import FlowCompiler.Decode.Scalar
import FlowCompiler.Decode.Source
import FlowCompiler.Files.Basic
import FlowCompiler.Files.Memory
import FlowCompiler.Files.Path
import FlowCompiler.Flow.Basic
import FlowCompiler.Flow.Export
import FlowCompiler.Flow.Graph
import FlowCompiler.Flow.Kind
import FlowCompiler.Flow.Loader
import FlowCompiler.Flow.Outlet
import FlowCompiler.Flow.Payload
import FlowCompiler.Flow.PayloadFormat
import FlowCompiler.Json.Basic
import FlowCompiler.Json.Draft
import FlowCompiler.Json.Fault
import FlowCompiler.Json.Literal
import FlowCompiler.Json.Numeral
import FlowCompiler.Json.Printer
import FlowCompiler.Json.Reader
import FlowCompiler.Lowering.Actions
import FlowCompiler.Lowering.Emission
import FlowCompiler.Lowering.Forks
import FlowCompiler.Lowering.Loops
import FlowCompiler.Lowering.Names
import FlowCompiler.Lowering.Registry
import FlowCompiler.Lowering.Request
import FlowCompiler.Lowering.Role
import FlowCompiler.Lowering.Subflows
import FlowCompiler.Lowering.Unfold
import FlowCompiler.Lowering.Walk
import FlowCompiler.Main
import FlowCompiler.Number.Double
import FlowCompiler.Number.Shortest
import FlowCompiler.Program.Basic
import FlowCompiler.Program.Expression
import FlowCompiler.Program.Primitive
import FlowCompiler.Program.Step
import FlowCompiler.Program.Tree
import FlowCompiler.Program.Verify
import FlowCompiler.Program.Wire
import FlowCompiler.Settings
import FlowCompiler.Storage
import FlowCompiler.Table
import FlowCompiler.Text.Blank
import FlowCompiler.Text.Identifier
import FlowCompiler.Text.Quoted
import FlowCompiler.Text.Upper
import FlowCompiler.Proofs.Identifiers
import FlowCompiler.Proofs.NameParts
import FlowCompiler.Proofs.StepNames
import FlowCompiler.Proofs.TableEntries
import FlowCompiler.Proofs.Registries
import FlowCompiler.Proofs.RoutineNames
import FlowCompiler.Proofs.Unfolding
import FlowCompiler.Proofs.Visits
import FlowCompiler.Proofs.Places
import FlowCompiler.Proofs.Calls
import FlowCompiler.Proofs.DistinctNames
import FlowCompiler.Proofs.Assembly
import FlowCompiler.Proofs.Jumps
import FlowCompiler.Proofs.Checked
import FlowCompiler.Proofs.Arguments
import FlowCompiler.Proofs.ReadableScopes
import FlowCompiler.Proofs.ScopeSafety
import FlowCompiler.Proofs.Linking
import FlowCompiler.Proofs.Successors
import FlowCompiler.Proofs.Tours
import FlowCompiler.Proofs.BodySearch
import FlowCompiler.Proofs.Stages
import FlowCompiler.Proofs.Handles
import FlowCompiler.Proofs.LoadedFlows
import FlowCompiler.Proofs.Acceptance
import FlowCompiler.Proofs.GraphLookups
import FlowCompiler.Proofs.LoopChains
import FlowCompiler.Proofs.RecursionDepth
import FlowCompiler.Proofs.Emissions
import FlowCompiler.Proofs.Interference
import FlowCompiler.Proofs.CallSites
import FlowCompiler.Proofs.CallTree
import FlowCompiler.Proofs.LoopBodies
import FlowCompiler.Proofs.Cycles
import FlowCompiler.Proofs.Engine
import FlowCompiler.Proofs.Runs
import FlowCompiler.Proofs.Frames
import FlowCompiler.Proofs.Counters
import FlowCompiler.Proofs.Rounds
import FlowCompiler.Proofs.BackJumps
import FlowCompiler.Proofs.BoundedJumps
import FlowCompiler.Proofs.Aborts
import FlowCompiler.Proofs.FinalAborts
import FlowCompiler.Proofs.Reservations
import FlowCompiler.Proofs.Trails
import FlowCompiler.Proofs.Origins
import FlowCompiler.Proofs.VisitCalls
import FlowCompiler.Proofs.LoopState
import FlowCompiler.Proofs.LoopSteps
import FlowCompiler.Proofs.Confinement
import FlowCompiler.Proofs.LoopTurns
import FlowCompiler.Proofs.Iterations
import FlowCompiler.Proofs.Parameters
import FlowCompiler.Proofs.LockStep
import FlowCompiler.Proofs.AlikeNames
import FlowCompiler.Proofs.PortGraphs
import FlowCompiler.Proofs.FlowEdits
import FlowCompiler.Proofs.Skeletons
import FlowCompiler.Proofs.SettingsChanges
import FlowCompiler.Proofs.Shapes
import FlowCompiler.Proofs.Retries
import FlowCompiler.Proofs.Retitling
import FlowCompiler.Proofs.Defects
import FlowCompiler.Proofs.ValidExports
import FlowCompiler.Proofs.WireReading
import FlowCompiler.Proofs.TokenReading
import FlowCompiler.Proofs.DocumentReading
import FlowCompiler.Proofs.DecodedValues
import FlowCompiler.Proofs.DistinctSettings
import FlowCompiler.Proofs.LegibleWire
import FlowCompiler.Proofs.WrittenPrograms
import FlowCompiler.Proofs.IdentifierGrammar
import FlowCompiler.Proofs.QuotedTexts
import FlowCompiler.Proofs.ComposedExpressions
import FlowCompiler.Proofs.Outlines
import FlowCompiler.Proofs.ProgramOutlines
import FlowCompiler.Proofs.SingleLines
import FlowCompiler.Proofs.TreeView
import FlowCompiler.Proofs.NormalForms
import FlowCompiler.Proofs.NormalRecords
import FlowCompiler.Proofs.PayloadRoundTrips
import FlowCompiler.Proofs.RegistryRuns
