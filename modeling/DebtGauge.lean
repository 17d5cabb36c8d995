import DebtGauge.CommandFailure
import DebtGauge.CommandLine.Basic
import DebtGauge.CommandLine.Options
import DebtGauge.CommandLine.Reader
import DebtGauge.CommandLine.Usage
import DebtGauge.Decimal.Binary
import DebtGauge.Decimal.Fixed
import DebtGauge.Decimal.Layout
import DebtGauge.Decimal.Reader
import DebtGauge.Decimal.Shortest
import DebtGauge.Discovery.IgnoreGlob
import DebtGauge.Discovery.IgnoreRules
import DebtGauge.Discovery.Selection
import DebtGauge.Discovery.Walk
import DebtGauge.Duplication.Block
import DebtGauge.Duplication.Grouping
import DebtGauge.Duplication.Similarity
import DebtGauge.Failure
import DebtGauge.FileAnalysis
import DebtGauge.FilePath.Basic
import DebtGauge.FilePath.Normal
import DebtGauge.FilePath.Order
import DebtGauge.FileTree
import DebtGauge.Finding
import DebtGauge.FunctionUnit.Basic
import DebtGauge.FunctionUnit.Complexity
import DebtGauge.FunctionUnit.Measurement
import DebtGauge.FunctionUnit.Nesting
import DebtGauge.FunctionUnit.Signature
import DebtGauge.Glob
import DebtGauge.ImportGraph.Basic
import DebtGauge.ImportGraph.Cycles
import DebtGauge.ImportGraph.Search
import DebtGauge.Imports
import DebtGauge.Instant.Basic
import DebtGauge.Instant.Rfc3339
import DebtGauge.Json.Basic
import DebtGauge.Json.Numeral
import DebtGauge.Json.Reader
import DebtGauge.Json.Writer
import DebtGauge.Language
import DebtGauge.Main
import DebtGauge.Markers
import DebtGauge.Metric
import DebtGauge.Program
import DebtGauge.Proofs.Double.Arithmetic
import DebtGauge.Proofs.Double.Count
import DebtGauge.Proofs.Double.Integral
import DebtGauge.Proofs.Double.Mantissa
import DebtGauge.Proofs.Double.Packing
import DebtGauge.Proofs.Double.Rounding
import DebtGauge.Proofs.Double.Value
import DebtGauge.Proofs.Duplication.Absorption
import DebtGauge.Proofs.Duplication.Duplicates
import DebtGauge.Proofs.Duplication.History
import DebtGauge.Proofs.FilePath.Normal
import DebtGauge.Proofs.FilePath.Parts
import DebtGauge.Proofs.FunctionUnit.Decisions
import DebtGauge.Proofs.FunctionUnit.Nesting
import DebtGauge.Proofs.FunctionUnit.Ownership
import DebtGauge.Proofs.ImportGraph.Bookkeeping
import DebtGauge.Proofs.ImportGraph.CycleKey
import DebtGauge.Proofs.ImportGraph.Cycles
import DebtGauge.Proofs.ImportGraph.History
import DebtGauge.Proofs.ImportGraph.Mention
import DebtGauge.Proofs.ImportGraph.Merging
import DebtGauge.Proofs.ImportGraph.Spelling
import DebtGauge.Proofs.Rule.Evaluation
import DebtGauge.Proofs.Run.Consistency
import DebtGauge.Proofs.Run.Interference
import DebtGauge.Proofs.Run.MoreDebt
import DebtGauge.Proofs.Run.Report
import DebtGauge.Proofs.Score.Aggregation
import DebtGauge.Proofs.Score.Density
import DebtGauge.Proofs.Score.Overall
import DebtGauge.Proofs.Search.Coverage
import DebtGauge.Proofs.Search.Entry
import DebtGauge.Proofs.Search.Invariant
import DebtGauge.Proofs.Search.Loop
import DebtGauge.Proofs.Search.Move
import DebtGauge.Proofs.Search.Since
import DebtGauge.Proofs.Search.Termination
import DebtGauge.Proofs.Sequence
import DebtGauge.Proofs.SyntaxTree.Place
import DebtGauge.Proofs.SyntaxTree.Walk
import DebtGauge.Proofs.Tally
import DebtGauge.Proofs.Text.EditDistance
import DebtGauge.Report.Basic
import DebtGauge.Report.Json
import DebtGauge.Report.Terminal
import DebtGauge.Report.Text
import DebtGauge.Rule
import DebtGauge.Rule.Check
import DebtGauge.Run.Delivery
import DebtGauge.Run.Options
import DebtGauge.Run.Outcome
import DebtGauge.Run.Project
import DebtGauge.Score.Aggregation
import DebtGauge.Score.Density
import DebtGauge.Score.Weights
import DebtGauge.Settings.Basic
import DebtGauge.Settings.Creation
import DebtGauge.Settings.Document
import DebtGauge.Settings.Search
import DebtGauge.Source
import DebtGauge.SourceFile
import DebtGauge.SyntaxTree.Basic
import DebtGauge.SyntaxTree.Json
import DebtGauge.SyntaxTree.Listing
import DebtGauge.SyntaxTree.Parsing
import DebtGauge.SyntaxTree.Stored
import DebtGauge.SyntaxTree.Traversal
import DebtGauge.Tally
import DebtGauge.Text.Blank
import DebtGauge.Text.EditDistance
import DebtGauge.Text.Lines
import DebtGauge.Text.Occurrences
import DebtGauge.Text.Styled
import DebtGauge.Text.Uppercase
import DebtGauge.Text.Uppercase.Table
import DebtGauge.Text.Utf8
import DebtGauge.Toml.Basic
import DebtGauge.Toml.Document
import DebtGauge.Toml.Quoted
import DebtGauge.Toml.Scalar
import DebtGauge.Proofs.SyntaxTree.Size
import DebtGauge.Proofs.FileTree.Parts
import DebtGauge.Proofs.FunctionUnit.Bounds
import DebtGauge.Proofs.FilePath.Below
import DebtGauge.Proofs.FilePath.Order
import DebtGauge.Proofs.Discovery.SourceFiles
import DebtGauge.Proofs.Run.FileStage
import DebtGauge.Proofs.Run.MetricStage
import DebtGauge.Proofs.Run.AnyOrder
import DebtGauge.Proofs.Run.FindingPaths
import DebtGauge.Proofs.Report.Sections
import DebtGauge.Proofs.FilePath.Above
import DebtGauge.Proofs.ImportGraph.Resolution
import DebtGauge.Proofs.Settings.Weights
import DebtGauge.Proofs.Text.Edits
import DebtGauge.Proofs.Duplication.Similarity
import DebtGauge.Proofs.Json.Numeral
import DebtGauge.Proofs.Json.Quoted
import DebtGauge.Proofs.Json.RoundTrip
import DebtGauge.Proofs.Report.RoundTrip
import DebtGauge.Proofs.Duplication.Growth
import DebtGauge.Proofs.Text.Words
import DebtGauge.Proofs.SyntaxTree.Span
import DebtGauge.Proofs.Duplication.Runs
import DebtGauge.Proofs.Duplication.NormalizedText
import DebtGauge.Proofs.Run.Functions
import DebtGauge.Proofs.Rule.Partition
import DebtGauge.Proofs.Double.Identity
import DebtGauge.Proofs.Double.Error
import DebtGauge.Proofs.Score.Normalization
import DebtGauge.Proofs.Score.Counts
import DebtGauge.Proofs.Score.Average
import DebtGauge.Proofs.Run.Recovery
import DebtGauge.Proofs.Settings.Overrides
import DebtGauge.Proofs.Report.Gravest
import DebtGauge.Proofs.SyntaxTree.Offending
import DebtGauge.Proofs.FileTree.Location
import DebtGauge.Proofs.Settings.Nearest
import DebtGauge.Proofs.FilePath.Canonical
import DebtGauge.Proofs.SyntaxTree.Calls
import DebtGauge.Proofs.Search.Stack
import DebtGauge.Proofs.ImportGraph.Discipline
import DebtGauge.Proofs.Search.Recursion
