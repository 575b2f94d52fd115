import CallAtlas.Analysis
import CallAtlas.Analysis.Codec
import CallAtlas.CallGraph.Codec
import CallAtlas.CallGraph.Impact
import CallAtlas.CallGraph.Linking
import CallAtlas.Cluster
import CallAtlas.Cluster.Codec
import CallAtlas.Command
import CallAtlas.Command.Arguments
import CallAtlas.Command.Outcome
import CallAtlas.Config
import CallAtlas.Config.Codec
import CallAtlas.Decimal.Fixed
import CallAtlas.Declaration.Codec
import CallAtlas.Definition.Index
import CallAtlas.Dialect.Choice
import CallAtlas.Dictionary
import CallAtlas.Error.Codec
import CallAtlas.FileSystem
import CallAtlas.FileSystem.Document
import CallAtlas.FileTree
import CallAtlas.Json.Codec
import CallAtlas.Json.Printer
import CallAtlas.Json.Reader
import CallAtlas.Report
import CallAtlas.Report.Codec
import CallAtlas.Session
import CallAtlas.SourceFile
import CallAtlas.Syntax.Row
import CallAtlas.Main
import CallAtlas.Grammar
import CallAtlas.Grammar.Python
import CallAtlas.Proofs.Dictionary
import CallAtlas.Proofs.Cluster.Partition
import CallAtlas.Proofs.CallGraph.Construction
import CallAtlas.Proofs.CallGraph.References
import CallAtlas.Proofs.CallGraph.Store
import CallAtlas.Proofs.CallGraph.Identity
import CallAtlas.Proofs.CallGraph.MergeOrder
import CallAtlas.Proofs.Analysis.Phases
import CallAtlas.Proofs.Analysis.Cancellation
import CallAtlas.Proofs.Report.Agreement
import CallAtlas.Proofs.Session.Requests
import CallAtlas.Proofs.Session.Runs
import CallAtlas.Proofs.Session.History
import CallAtlas.Proofs.Session.Cancellation
import CallAtlas.Proofs.Session.Reentry
import CallAtlas.Proofs.Session.Readings
import CallAtlas.Proofs.Analysis.Accounting
import CallAtlas.Proofs.CallGraph.Distance
import CallAtlas.Proofs.Definition.Resolution
import CallAtlas.Proofs.Syntax.Position
import CallAtlas.Proofs.Dialect.Scopes
import CallAtlas.Proofs.Dialect.Attribution
import CallAtlas.Proofs.Community.Moves
import CallAtlas.Proofs.Community.Components
import CallAtlas.Proofs.Community.Projection
import CallAtlas.Proofs.Cluster.Connection
import CallAtlas.Proofs.Community.Weights
import CallAtlas.Proofs.Community.Modularity
import CallAtlas.Proofs.Community.Simple
import CallAtlas.Proofs.Community.Division
import CallAtlas.Proofs.Cluster.Size
import CallAtlas.Proofs.Community.Quality
import CallAtlas.Proofs.Community.Floating
import CallAtlas.Proofs.Cluster.Tuning
import CallAtlas.Proofs.Text.Utf8
import CallAtlas.Proofs.FileTree
import CallAtlas.Proofs.Path
import CallAtlas.Proofs.SourceFile.Scan
import CallAtlas.Proofs.SourceFile.RelativePath
import CallAtlas.Proofs.CallGraph.Changes
import CallAtlas.Proofs.CallGraph.Edits
import CallAtlas.Proofs.Session.Edits
import CallAtlas.Proofs.Cluster.Cohesion
import CallAtlas.Proofs.Community.Rearrangement
import CallAtlas.Proofs.Cluster.Undirected
import CallAtlas.Proofs.Cluster.Labels
import CallAtlas.Proofs.Dialect.Faults
import CallAtlas.Proofs.Dialect.Extents
import CallAtlas.Proofs.Json.Lawful
import CallAtlas.Proofs.Report.RoundTrip
import CallAtlas.Proofs.Community.Course
import CallAtlas.Proofs.Community.Ending
import CallAtlas.Proofs.Community.Edges
import CallAtlas.Proofs.Community.Balance
import CallAtlas.Proofs.Definition.Answers
import CallAtlas.Proofs.Dialect.Layout
import CallAtlas.Proofs.Text.CommonPrefix
