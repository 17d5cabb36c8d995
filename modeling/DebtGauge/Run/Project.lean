import DebtGauge.Discovery.Walk
import DebtGauge.Rule.Check
import DebtGauge.Run.Options
import DebtGauge.Run.Outcome
import DebtGauge.Score.Aggregation

/-!
# The analysis of a project

The files of a project are found, each of them is analysed, the rules are evaluated on all
metrics together, and their scores are combined.

Main definitions:

* `RuleResult`, `RunOptions.evaluate` — what the rules of a run find;
* `RunOptions.report` — the report on the outcomes of files;
* `analyzeProject` — the whole way from a path to its report.
-/

namespace DebtGauge

/-- What a rule finds in a run, and the score of that. -/
structure RuleResult where
  rule : Rule
  findings : List Finding
  score : Float

/-- Evaluates a rule on the metrics of a run over so many files. -/
def Rule.result (rule : Rule) (totalFiles : Nat) (metrics : List Metric) :
    Except Failure RuleResult := do
  let findings ← rule.evaluate metrics
  return { rule, findings, score := rule.score (some totalFiles) findings }

/-- What the rules of a run find, in their order. -/
def RunOptions.evaluate (options : RunOptions) (totalFiles : Nat) (metrics : List Metric) :
    Except Failure (List RuleResult) :=
  options.rules.mapM fun rule => rule.result totalFiles metrics

/-- What is said about a run without files. -/
def noFilesNote : String := "No source files found"

/-- The report on the outcomes of files. -/
def RunOptions.report (options : RunOptions) (root : FilePath) (outcomes : List FileOutcome)
    (now : Instant) : Except Failure Report := do
  let metrics ← FileOutcome.metrics outcomes
  let results ← options.evaluate outcomes.length metrics
  let findings := results.flatMap (·.findings)
  let totals : ScoreTotals :=
    { filesAnalyzed := outcomes.length, totalMetrics := metrics.length
      totalFindings := findings.length }
  let score ← aggregate options.weights (results.map fun result => (result.rule, result.score))
    totals now
  let summary : RunSummary :=
    { filesAnalyzed := outcomes.length
      filesParsed := (FileOutcome.analyses outcomes).length
      elapsedMilliseconds := 0
      timestamp := now
      warnings := FileOutcome.warnings outcomes
      notes := if outcomes.isEmpty then [noFilesNote] else [] }
  return { root, score, findings, summary }

/-- Analyses the project at the path of the options. -/
def analyzeProject (parser : Parser) (fs : FileSystem) (now : Instant) (options : RunOptions) :
    Except Failure Report := do
  match options.path.absoluteFrom? fs.workingDirectory with
  | none => throw (.fileSystem .unresolvableRoot)
  | some root =>
    let files ← fs.sourceFiles root options.selection
    let outcomes ← files.mapM (FileOutcome.ofFile parser fs)
    options.report root outcomes now

/-- A report with the time that the run took, and the instant at which it ended. -/
def Report.finishedAt (report : Report) (now : Instant) (elapsedMilliseconds : Nat) : Report :=
  { report with
    score := { report.score with timestamp := now }
    summary := { report.summary with timestamp := now, elapsedMilliseconds } }

end DebtGauge
