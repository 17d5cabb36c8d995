import DebtGauge.Proofs.Run.Report
import DebtGauge.Proofs.Score.Overall

/-!
# More debt never raises the score

A further metric adds findings or none, and each rule's findings stay in their order. More
findings do not raise the score of a category, and the overall score does not rise either; more
files lower neither. This holds of the scores as they are computed with doubles, every step
rounded.

Main definitions and results:

* `RunOptions.scoreOf` — the score of metrics in a run over a number of files;
* `Score.NoHigher` — a score none of whose parts is higher;
* `RunOptions.more_debt_never_raises_score` — the score with a further metric, and with more files.
-/

namespace DebtGauge

open Double

namespace Rule

/-- Further metrics add findings, and leave those that there are in their order. -/
theorem found_sublist (rule : Rule) {metrics metrics' : List Metric}
    (h : metrics.Sublist metrics') : (rule.found metrics).Sublist (rule.found metrics') := by
  unfold found
  exact List.Sublist.flatMap_right _ fun check _ => (h.filter check.flags).map _

end Rule

/-- A score none of whose parts is higher than that of the same category, or overall. -/
structure Score.NoHigher (a b : Score) : Prop where
  overall_le : a.overall ≤ b.overall
  categories_le : List.Forall₂ (fun category other => category.name = other.name ∧
    category.score ≤ other.score) a.categories b.categories

namespace RunOptions

variable {options : RunOptions}

/-- Evaluates the rules on metrics, scores what they find in a run over so many files, and
combines the scores. -/
def scoreOf (options : RunOptions) (totalFiles : Nat) (metrics : List Metric)
    (totals : ScoreTotals) (now : Instant) : Except Failure Score := do
  let results ← options.evaluate totalFiles metrics
  aggregate options.weights (results.map fun result => (result.rule, result.score)) totals now

/-- Whether metrics can be scored depends on the weights alone. -/
theorem scoreOf_eq (totalFiles : Nat) (metrics : List Metric) (totals : ScoreTotals)
    (now : Instant) :
    options.scoreOf totalFiles metrics totals now =
      (ensureWeightSum (rescaledWeights options.weights options.rules)).map fun _ =>
        options.scoreOn totalFiles metrics totals now := by
  unfold scoreOf
  rw [evaluate_eq]
  show aggregate options.weights (List.map _ _) totals now = _
  rw [map_resultOf, aggregate_eq, map_fst_scores]
  rfl

/-- The score in a report is that of the metrics of its outcomes: `scoreOf` is the part of a run
that turns metrics into a score. -/
theorem scoreOf_report {root : FilePath} {outcomes : List FileOutcome} {now : Instant}
    {report : Report} (h : options.report root outcomes now = .ok report) :
    ∃ metrics, FileOutcome.metrics outcomes = .ok metrics ∧
      options.scoreOf outcomes.length metrics report.score.totals now = .ok report.score := by
  obtain ⟨metrics, hMetrics, hWeights, rfl⟩ := exists_of_report_ok h
  refine ⟨metrics, hMetrics, ?_⟩
  rw [scoreOf_eq, hWeights]
  rfl

/-- If no rule scores higher, neither does any category, and nor does the whole. -/
theorem scoreOn_noHigher (hWeights : options.weights.validate = .ok ()) {files files' : Nat}
    (hFiles : 1 ≤ files) (hFiles' : 1 ≤ files') {metrics metrics' : List Metric}
    (h : ∀ rule : Rule, rule.score (some files) (rule.found metrics) ≤
      rule.score (some files') (rule.found metrics'))
    (totals totals' : ScoreTotals) (now now' : Instant) :
    (options.scoreOn files metrics totals now).NoHigher
      (options.scoreOn files' metrics' totals' now') := by
  have hBounded (n : Nat) (hn : 1 ≤ n) (ms : List Metric) :
      ∀ category ∈ categoriesOf options.weights (options.scores n ms), category.IsBounded := by
    refine isBounded_of_mem_categoriesOf hWeights fun entry hEntry => ?_
    obtain ⟨rule, -, rfl⟩ := List.mem_map.mp hEntry
    have hScore := represents_score rule hn (rule.found ms)
    exact ⟨hScore.zero_le, hScore.value_eq.trans_le (categoryValue_le rule n _)⟩
  have hEntries : List.Forall₂ (fun entry other => entry.1 = other.1 ∧ entry.2 ≤ other.2)
      (options.scores files metrics) (options.scores files' metrics') := by
    unfold scores
    rw [List.forall₂_map_left_iff, List.forall₂_map_right_iff]
    exact List.forall₂_same.mpr fun rule _ => ⟨rfl, h rule⟩
  have hCategories : List.Forall₂ CategoryScore.NoHigher
      (categoriesOf options.weights (options.scores files metrics))
      (categoriesOf options.weights (options.scores files' metrics')) := by
    refine (forall₂_categoriesOf_of_forall₂ options.weights hEntries).imp ?_
    rintro _ _ ⟨rule, score, score', weight, hOrder, rfl, rfl⟩
    exact ⟨rfl, rfl, hOrder⟩
  exact
    { overall_le := overallScore_le hCategories (hBounded files hFiles metrics)
        (hBounded files' hFiles' metrics')
      categories_le := hCategories.imp fun _ _ hCategory => ⟨hCategory.1, hCategory.2.2⟩ }

/-- If metrics can be scored with valid weights, then so they can with a further metric put in
anywhere, and neither a category nor the whole scores higher then; and so they can with more
files, and neither scores lower. -/
theorem more_debt_never_raises_score (hWeights : options.weights.validate = .ok ())
    {files : Nat} (hFiles : 1 ≤ files) {before after : List Metric} {totals : ScoreTotals}
    {now : Instant} {score : Score}
    (hScore : options.scoreOf files (before ++ after) totals now = .ok score) :
    (∀ (metric : Metric) (totals' : ScoreTotals) (now' : Instant), ∃ lower,
      options.scoreOf files (before ++ metric :: after) totals' now' = .ok lower ∧
        lower.NoHigher score) ∧
    ∀ files', files ≤ files' → ∀ (totals' : ScoreTotals) (now' : Instant), ∃ higher,
      options.scoreOf files' (before ++ after) totals' now' = .ok higher ∧
        score.NoHigher higher := by
  rw [scoreOf_eq] at hScore
  cases hSum : ensureWeightSum (rescaledWeights options.weights options.rules) with
  | error failure =>
    rw [hSum] at hScore
    cases hScore
  | ok =>
    rw [hSum] at hScore
    cases hScore
    -- the same weights pass the check again, whatever the metrics and the count of files are
    refine ⟨fun metric totals' now' => ?_, fun files' hMore totals' now' => ?_⟩
    · -- a further metric
      refine ⟨options.scoreOn files (before ++ metric :: after) totals' now', ?_, ?_⟩
      · rw [scoreOf_eq, hSum]
        rfl
      · refine scoreOn_noHigher hWeights hFiles hFiles (fun rule => ?_) ..
        have hInserted : (before ++ after).Sublist (before ++ metric :: after) :=
          (List.Sublist.refl before).append (List.sublist_cons_self metric after)
        rw [(represents_score rule hFiles _).le_iff (represents_score rule hFiles _)]
        exact categoryValue_anti rule files ((rule.found_sublist hInserted).map _)
    · -- more files
      have hFiles' : 1 ≤ files' := hFiles.trans hMore
      refine ⟨options.scoreOn files' (before ++ after) totals' now', ?_, ?_⟩
      · rw [scoreOf_eq, hSum]
        rfl
      · refine scoreOn_noHigher hWeights hFiles hFiles' (fun rule => ?_) ..
        rw [(represents_score rule hFiles _).le_iff (represents_score rule hFiles' _)]
        exact categoryValue_mono rule hMore _

/-- The complexity of a function that branches a little too much. -/
def mildMetric : Metric where
  kind := .cyclomaticComplexity
  value := 11.0
  path := ⟨"/a.ts"⟩
  location := none
  context := none
  path_ne := by decide
  value_finite := by decide

/-- The complexity of a function that branches far too much. -/
def graveMetric : Metric where
  kind := .cyclomaticComplexity
  value := 25.0
  path := ⟨"/b.ts"⟩
  location := none
  context := none
  path_ne := by decide
  value_finite := by decide

/-- Scores functions by their branches and by their size. -/
def functionOptions : RunOptions where
  path := ⟨"/"⟩
  selection := ⟨["**"], []⟩
  weights := .standard
  rules := [.complexity, .size]
  parallel := false
  quiet := true

theorem more_debt_never_raises_score_graveMetric :
    ∃ score lower higher,
      functionOptions.scoreOf 1 [mildMetric] ⟨1, 1, 1⟩ ⟨0, 0, 0⟩ = .ok score ∧
      functionOptions.scoreOf 1 [graveMetric, mildMetric] ⟨1, 2, 2⟩ ⟨0, 0, 0⟩ = .ok lower ∧
      functionOptions.scoreOf 3 [mildMetric] ⟨3, 1, 1⟩ ⟨0, 0, 0⟩ = .ok higher ∧
      lower.NoHigher score ∧ score.NoHigher higher := by
  have hWeights : functionOptions.weights.validate = .ok () := rfl
  have hSome : (functionOptions.scoreOf 1 [mildMetric] ⟨1, 1, 1⟩ ⟨0, 0, 0⟩).toOption.isSome =
      true := by decide +kernel
  cases hScore : functionOptions.scoreOf 1 [mildMetric] ⟨1, 1, 1⟩ ⟨0, 0, 0⟩ with
  | error failure =>
    rw [hScore] at hSome
    cases hSome
  | ok score =>
    have hScore' : functionOptions.scoreOf 1 ([] ++ [mildMetric]) ⟨1, 1, 1⟩ ⟨0, 0, 0⟩ =
        .ok score := hScore
    obtain ⟨hDebt, hFiles⟩ := more_debt_never_raises_score hWeights le_rfl hScore'
    obtain ⟨lower, hLower, hNoHigher⟩ := hDebt graveMetric ⟨1, 2, 2⟩ ⟨0, 0, 0⟩
    obtain ⟨higher, hHigher, hNoLower⟩ := hFiles 3 (by decide) ⟨3, 1, 1⟩ ⟨0, 0, 0⟩
    exact ⟨score, lower, higher, rfl, hLower, hHigher, hNoHigher, hNoLower⟩

end RunOptions

end DebtGauge
