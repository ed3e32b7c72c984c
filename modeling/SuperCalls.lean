import SuperCalls.Main
import SuperCalls.Sandbox.Memory
import SuperCalls.Tree
import SuperCalls.Proofs.Text.Utf8
import SuperCalls.Proofs.Text.Numeral
import SuperCalls.Proofs.Text.NearestDouble
import SuperCalls.Proofs.Text.JsonRoundTrip
import SuperCalls.Proofs.Paths.Boundary
import SuperCalls.Proofs.Paths.NormalForm
import SuperCalls.Proofs.Paths.Relative
import SuperCalls.Proofs.Tree.Paths
import SuperCalls.Proofs.Tree.Walks
import SuperCalls.Proofs.Tree.Outline
import SuperCalls.Proofs.Tree.GoingBack
import SuperCalls.Proofs.Rules.Rewriting
import SuperCalls.Proofs.Rules.Grammar
import SuperCalls.Proofs.Rules.Recognition
import SuperCalls.Proofs.Rules.Pieces
import SuperCalls.Proofs.Rules.SimultaneousReplacement
import SuperCalls.Proofs.Rules.ChangeCounts
import SuperCalls.Proofs.Rules.Idempotence
import SuperCalls.Proofs.Rules.Separators
import SuperCalls.Proofs.Rules.SplitCalls
import SuperCalls.Proofs.Rules.OwnIdentifiers
import SuperCalls.Proofs.Rules.ListedCounts
import SuperCalls.Proofs.Bus.Calm
import SuperCalls.Proofs.Bus.Invariants
import SuperCalls.Proofs.Bus.Moments
import SuperCalls.Proofs.Bus.MomentOrder
import SuperCalls.Proofs.Bus.Cursors
import SuperCalls.Proofs.Bus.Registrations
import SuperCalls.Proofs.Bus.Timeline
import SuperCalls.Proofs.Bus.Delivery
import SuperCalls.Proofs.Bus.Requests
import SuperCalls.Proofs.Bus.Lifetimes
import SuperCalls.Proofs.Bus.Receipt
import SuperCalls.Proofs.Bus.PassiveListeners
import SuperCalls.Proofs.Batch.Course
import SuperCalls.Proofs.Batch.ErrorPolicies
import SuperCalls.Proofs.Batch.MemoryVisits
import SuperCalls.Proofs.Batch.PathIndependence
import SuperCalls.Proofs.Batch.CallBlocks
import SuperCalls.Proofs.Batch.FailureCodes
import SuperCalls.Proofs.Batch.AnnouncedWrites
import SuperCalls.Proofs.Batch.ReportAgreement
import SuperCalls.Proofs.Batch.DryRuns
import SuperCalls.Proofs.Batch.OncePerPath
import SuperCalls.Proofs.Batch.Recovery
import SuperCalls.Proofs.Search.Patterns
import SuperCalls.Proofs.Search.UsablePaths
import SuperCalls.Proofs.Search.RegularFiles
import SuperCalls.Proofs.Config.Acceptance
import SuperCalls.Proofs.Config.Schema
import SuperCalls.Proofs.Config.Issues
import SuperCalls.Proofs.Config.Admission
import SuperCalls.Proofs.Config.Targets
import SuperCalls.Proofs.Config.RepeatedTargets
import SuperCalls.Proofs.Workspace.ChangedFiles
import SuperCalls.Proofs.Workspace.Confinement
import SuperCalls.Proofs.Workspace.RoundTrip
import SuperCalls.Proofs.Workspace.Refusals
import SuperCalls.Proofs.Workspace.Spellings
import SuperCalls.Proofs.Workspace.TidyPaths
import SuperCalls.Proofs.Workspace.MemoryMirror
import SuperCalls.Proofs.Workspace.Repetition
import SuperCalls.Proofs.Command.Lookups
import SuperCalls.Proofs.Command.ReportLines
import SuperCalls.Proofs.Command.ReportedChanges
import SuperCalls.Proofs.Command.ExitCodes
import SuperCalls.Proofs.Command.Breakdown
import SuperCalls.Proofs.Command.Rerun
import SuperCalls.Proofs.Command.OptionsAsSettings
import SuperCalls.Proofs.Command.IndentWidth
import SuperCalls.Proofs.Command.FoundFiles
