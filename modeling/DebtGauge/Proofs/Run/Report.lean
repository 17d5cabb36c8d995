import DebtGauge.Proofs.Rule.Evaluation
import DebtGauge.Proofs.Score.Aggregation
import DebtGauge.Run.Project

/-!
# How a report is put together

No rule refuses a metric, so the report on the outcomes of files can fail only before the
rules, while metrics are made, or behind them, when the weights are checked.

Main definitions and results:

* `RunOptions.found`, `RunOptions.scores` — the findings of a run and the scores of its rules;
* `RunOptions.scoreOn`, `RunOptions.reportOn` — the score and the report on the metrics of a run;
* `RunOptions.report_eq` — a report makes the metrics, checks the weights and reports;
* `exists_of_analyzeProject_ok` — what a run that does not fail has come through.
-/

namespace DebtGauge

namespace Rule

/-- What a rule finds in a run over so many files, without the possibility of failure. -/
def resultOf (rule : Rule) (totalFiles : Nat) (metrics : List Metric) : RuleResult where
  rule := rule
  findings := rule.found metrics
  score := rule.score (some totalFiles) (rule.found metrics)

theorem result_eq (rule : Rule) (totalFiles : Nat) (metrics : List Metric) :
    rule.result totalFiles metrics = .ok (rule.resultOf totalFiles metrics) := by
  rw [result, evaluate_eq]
  rfl

end Rule

namespace RunOptions

variable (options : RunOptions)

/-- The findings of all rules, rule by rule. -/
def found (metrics : List Metric) : List Finding :=
  options.rules.flatMap (·.found metrics)

/-- The rules with the scores of their findings. -/
def scores (totalFiles : Nat) (metrics : List Metric) : List (Rule × Float) :=
  options.rules.map fun rule => (rule, rule.score (some totalFiles) (rule.found metrics))

/-- The score of the metrics of a run, if the weights pass. -/
def scoreOn (totalFiles : Nat) (metrics : List Metric) (totals : ScoreTotals) (now : Instant) :
    Score where
  overall := overallScore (categoriesOf options.weights (options.scores totalFiles metrics))
  categories := categoriesOf options.weights (options.scores totalFiles metrics)
  timestamp := now
  totals := totals

/-- The report on the metrics of a run, if the weights pass. -/
def reportOn (root : FilePath) (outcomes : List FileOutcome) (now : Instant)
    (metrics : List Metric) : Report where
  root := root
  score := options.scoreOn outcomes.length metrics
    ⟨outcomes.length, metrics.length, (options.found metrics).length⟩ now
  findings := options.found metrics
  summary :=
    { filesAnalyzed := outcomes.length
      filesParsed := (FileOutcome.analyses outcomes).length
      elapsedMilliseconds := 0
      timestamp := now
      warnings := FileOutcome.warnings outcomes
      notes := if outcomes.isEmpty then [noFilesNote] else [] }

theorem evaluate_eq (totalFiles : Nat) (metrics : List Metric) :
    options.evaluate totalFiles metrics =
      .ok (options.rules.map (·.resultOf totalFiles metrics)) :=
  mapM_eq_ok_map fun rule _ => rule.result_eq totalFiles metrics

/-- The scores are those of the results of the rules. -/
theorem map_resultOf (totalFiles : Nat) (metrics : List Metric) :
    (options.rules.map (·.resultOf totalFiles metrics)).map
      (fun result => (result.rule, result.score)) = options.scores totalFiles metrics :=
  List.map_map ..

theorem map_fst_scores (totalFiles : Nat) (metrics : List Metric) :
    (options.scores totalFiles metrics).map (·.1) = options.rules := by
  rw [scores, List.map_map]
  exact List.map_id _

/-- A report makes the metrics of the outcomes, checks the weights, and reports. -/
theorem report_eq (root : FilePath) (outcomes : List FileOutcome) (now : Instant) :
    options.report root outcomes now =
      FileOutcome.metrics outcomes >>= fun metrics =>
        (ensureWeightSum (rescaledWeights options.weights options.rules)).map fun _ =>
          options.reportOn root outcomes now metrics := by
  unfold report
  cases FileOutcome.metrics outcomes with
  | error failure => rfl
  | ok metrics =>
    have hFound : (options.rules.map (·.resultOf outcomes.length metrics)).flatMap (·.findings) =
        options.found metrics := List.flatMap_map ..
    -- evaluating the rules succeeds, and only the check of the weights is left
    show (options.evaluate outcomes.length metrics >>= _) =
      (ensureWeightSum (rescaledWeights options.weights options.rules)).map _
    rw [evaluate_eq]
    show (aggregate options.weights (List.map _ _) _ now >>= _) = _
    rw [map_resultOf, hFound, aggregate_eq, map_fst_scores]
    cases ensureWeightSum (rescaledWeights options.weights options.rules) with
    | error failure => rfl
    | ok => rfl

variable {options}

/-- A report fails with the metrics, or else with the check of the weights. -/
theorem report_eq_error_iff {root : FilePath} {outcomes : List FileOutcome} {now : Instant}
    {failure : Failure} :
    options.report root outcomes now = .error failure ↔
      FileOutcome.metrics outcomes = .error failure ∨
        (∃ metrics, FileOutcome.metrics outcomes = .ok metrics) ∧
          ensureWeightSum (rescaledWeights options.weights options.rules) = .error failure := by
  rw [report_eq]
  generalize FileOutcome.metrics outcomes = result
  generalize ensureWeightSum (rescaledWeights options.weights options.rules) = weightCheck
  cases result with
  | error other =>
    constructor
    · intro h
      cases h
      exact .inl rfl
    · rintro (h | ⟨⟨_, h⟩, _⟩)
      · cases h
        rfl
      · cases h
  | ok metrics =>
    cases weightCheck with
    | error other =>
      constructor
      · intro h
        cases h
        exact .inr ⟨⟨metrics, rfl⟩, rfl⟩
      · rintro (h | ⟨_, h⟩)
        · cases h
        · cases h
          rfl
    | ok =>
      constructor
      · intro h
        cases h
      · rintro (h | ⟨_, h⟩) <;> cases h

/-- A report is the one on the metrics of the outcomes, and the weights have passed. -/
theorem exists_of_report_ok {root : FilePath} {outcomes : List FileOutcome} {now : Instant}
    {report : Report} (h : options.report root outcomes now = .ok report) :
    ∃ metrics, FileOutcome.metrics outcomes = .ok metrics ∧
      ensureWeightSum (rescaledWeights options.weights options.rules) = .ok () ∧
      report = options.reportOn root outcomes now metrics := by
  rw [report_eq] at h
  obtain ⟨metrics, hMetrics, h⟩ := exists_of_bind_ok h
  refine ⟨metrics, hMetrics, ?_⟩
  cases hWeights : ensureWeightSum (rescaledWeights options.weights options.rules) with
  | error failure =>
    rw [hWeights] at h
    cases h
  | ok =>
    rw [hWeights] at h
    exact ⟨rfl, (Except.ok.inj h).symm⟩

end RunOptions

/-! ## The whole run -/

section Run

variable {parser : Parser} {fs : FileSystem} {options : RunOptions}

theorem analyzeProject_eq {root : FilePath} (now : Instant)
    (hRoot : options.path.absoluteFrom? fs.workingDirectory = some root) :
    analyzeProject parser fs now options =
      fs.sourceFiles root options.selection >>= fun files =>
        files.mapM (FileOutcome.ofFile parser fs) >>= fun outcomes =>
          options.report root outcomes now := by
  unfold analyzeProject
  rw [hRoot]

/-- What a run that does not fail has come through. -/
theorem exists_of_analyzeProject_ok {now : Instant} {report : Report}
    (h : analyzeProject parser fs now options = .ok report) : ∃ root files outcomes metrics,
      options.path.absoluteFrom? fs.workingDirectory = some root ∧
      fs.sourceFiles root options.selection = .ok files ∧
      files.mapM (FileOutcome.ofFile parser fs) = .ok outcomes ∧
      FileOutcome.metrics outcomes = .ok metrics ∧
      report = options.reportOn root outcomes now metrics := by
  cases hRoot : options.path.absoluteFrom? fs.workingDirectory with
  | none =>
    unfold analyzeProject at h
    rw [hRoot] at h
    cases h
  | some root =>
    rw [analyzeProject_eq now hRoot] at h
    obtain ⟨files, hFiles, h⟩ := exists_of_bind_ok h
    obtain ⟨outcomes, hOutcomes, h⟩ := exists_of_bind_ok h
    obtain ⟨metrics, hMetrics, -, hReport⟩ := RunOptions.exists_of_report_ok h
    exact ⟨root, files, outcomes, metrics, rfl, hFiles, hOutcomes, hMetrics, hReport⟩

end Run

end DebtGauge
