import DebtGauge.Proofs.Double.Integral
import DebtGauge.Proofs.Rule.Evaluation
import DebtGauge.Proofs.Run.Consistency
import DebtGauge.Proofs.Run.FileStage

/-!
# Measurements from metrics

The metrics of a file leave out what is zero, and they name functions by labels that need not be
unique. Still no measurement is lost: the metrics of each function start with its length, and those
that are left out are zero. No rule looks at a metric that is zero, so that it makes no difference
to the findings that they are left out.

Main definitions and results:

* `IsSplit` — metrics that are cut in front of every length of a function;
* `measuredIn` — the measurements of a function, read from its metrics;
* `AddsZeros` — metrics with others between them that are zero;
* `ParsedFile.analysis_loses_nothing` — what the metrics of a file determine.
-/

namespace DebtGauge

open Double

/-! ## Groups of metrics -/

/-- Metrics that are cut in front of every length of a function: those of the file come first, and
each group behind them starts with a length and holds no other. -/
structure IsSplit (metrics front : List Metric) (groups : List (List Metric)) : Prop where
  append_eq : front ++ groups.flatten = metrics
  front_kind : ∀ metric ∈ front, metric.kind ≠ .functionLength
  group_kinds : ∀ group ∈ groups, ∃ first rest, group = first :: rest ∧
    first.kind = .functionLength ∧ ∀ metric ∈ rest, metric.kind ≠ .functionLength

namespace IsSplit

variable {metric : Metric} {metrics front front' : List Metric}
  {groups groups' : List (List Metric)}

/-- The first metric belongs to those in front, or it starts the first group. -/
theorem cons_cases (h : IsSplit (metric :: metrics) front groups) :
    (metric.kind ≠ .functionLength ∧
      ∃ rest, front = metric :: rest ∧ IsSplit metrics rest groups) ∨
    (metric.kind = .functionLength ∧ front = [] ∧
      ∃ rest others, groups = (metric :: rest) :: others ∧ IsSplit metrics rest others) := by
  cases front with
  | cons first rest =>
    obtain ⟨hFirst, hRest⟩ := List.cons.inj h.append_eq
    subst hFirst
    obtain ⟨hKind, hKinds⟩ := List.forall_mem_cons.mp h.front_kind
    exact .inl ⟨hKind, rest, rfl, hRest, hKinds, h.group_kinds⟩
  | nil =>
    cases groups with
    | nil => cases h.append_eq
    | cons group others =>
      obtain ⟨⟨first, rest, rfl, hKind, hKinds⟩, hOthers⟩ := List.forall_mem_cons.mp h.group_kinds
      obtain ⟨hFirst, hRest⟩ := List.cons.inj h.append_eq
      subst hFirst
      exact .inr ⟨hKind, rfl, rest, others, rfl, hRest, hKinds, hOthers⟩

/-- A group has at least one metric, so that there are none to be cut. -/
theorem of_nil (h : IsSplit [] front groups) : front = [] ∧ groups = [] := by
  obtain ⟨hFront, hGroups⟩ := List.append_eq_nil_iff.mp h.append_eq
  refine ⟨hFront, List.eq_nil_iff_forall_not_mem.mpr fun group hMem => ?_⟩
  obtain ⟨first, rest, rfl, -, -⟩ := h.group_kinds group hMem
  cases List.flatten_eq_nil_iff.mp hGroups _ hMem

/-- There is one way to cut metrics. -/
theorem unique (h : IsSplit metrics front groups) (h' : IsSplit metrics front' groups') :
    front' = front ∧ groups' = groups := by
  induction metrics generalizing front front' groups groups' with
  | nil =>
    obtain ⟨rfl, rfl⟩ := h.of_nil
    exact h'.of_nil
  | cons metric metrics ih =>
    -- its kind decides for both of them where the first metric belongs
    obtain ⟨hKind, rest, rfl, hRest⟩ | ⟨hKind, rfl, rest, others, rfl, hRest⟩ := h.cons_cases
    · obtain ⟨-, rest', rfl, hRest'⟩ | ⟨hKind', -⟩ := h'.cons_cases
      · obtain ⟨rfl, rfl⟩ := ih hRest hRest'
        exact ⟨rfl, rfl⟩
      · exact absurd hKind' hKind
    · obtain ⟨hKind', -⟩ | ⟨-, rfl, rest', others', rfl, hRest'⟩ := h'.cons_cases
      · exact absurd hKind hKind'
      · obtain ⟨rfl, rfl⟩ := ih hRest hRest'
        exact ⟨rfl, rfl⟩

end IsSplit

/-! ## Measurements of a group -/

/-- What is measured of a function apart from its name and its place. -/
structure Measured where
  length : ℕ
  parameters : ℕ
  cyclomatic : ℕ
  nesting : ℕ
  anyUses : ℕ
deriving DecidableEq

/-- What is measured of a function. -/
def FunctionUnit.measured (unit : FunctionUnit) : Measured where
  length := unit.length
  parameters := unit.parameters
  cyclomatic := unit.cyclomatic
  nesting := unit.nesting
  anyUses := unit.anyUses

/-- The value of the first metric of a kind, or zero if there is none. -/
def valueIn (group : List Metric) (kind : MetricKind) : ℕ :=
  ((group.find? (·.kind = kind)).map fun metric => wholeNumber metric.value).getD 0

/-- The measurements of a function, read from its metrics. -/
def measuredIn (group : List Metric) : Measured where
  length := valueIn group .functionLength
  parameters := valueIn group .parameterCount
  cyclomatic := valueIn group .cyclomaticComplexity
  nesting := valueIn group .nestingDepth
  anyUses := valueIn group .anyUsage

/-- The measurement of a kind, or zero if it is left out. -/
def measurementIn (measurements : List (MetricKind × ℕ)) (kind : MetricKind) : ℕ :=
  ((measurements.find? (·.1 = kind)).map Prod.snd).getD 0

/-- What is left out is zero. -/
theorem measurementIn_measurements (unit : FunctionUnit) :
    measurementIn unit.measurements .functionLength = unit.length ∧
    measurementIn unit.measurements .parameterCount = unit.parameters ∧
    measurementIn unit.measurements .cyclomaticComplexity = unit.cyclomatic ∧
    measurementIn unit.measurements .nestingDepth = unit.nesting ∧
    measurementIn unit.measurements .anyUsage = unit.anyUses := by
  unfold FunctionUnit.measurements measurementIn
  dsimp only
  split_ifs <;> simp <;> omega

/-- A metric that was made of a measurement. -/
def Records (measurement : MetricKind × ℕ) (metric : Metric) : Prop :=
  metric.kind = measurement.1 ∧ metric.value = Float.ofNat measurement.2

theorem records_of_create {measurement : MetricKind × ℕ} {path : FilePath}
    {location : Option Location} {context : Option String} {metric : Metric}
    (h : Metric.create measurement.1 (Float.ofNat measurement.2) path location context =
      .ok metric) : Records measurement metric := by
  unfold Metric.create at h
  split at h
  · split at h
    · cases h
      exact ⟨rfl, rfl⟩
    · cases h
  · cases h

/-- What was measured is read from the metrics again. -/
theorem valueIn_eq {measurements : List (MetricKind × ℕ)} {group : List Metric}
    (h : List.Forall₂ Records measurements group)
    (hSmall : ∀ measurement ∈ measurements, measurement.2 < 2 ^ 53) (kind : MetricKind) :
    valueIn group kind = measurementIn measurements kind := by
  unfold valueIn measurementIn
  induction h with
  | nil => rfl
  | @cons measurement metric _ _ hHead _ ih =>
    obtain ⟨hKind, hValue⟩ := hHead
    obtain ⟨hFirst, hRest⟩ := List.forall_mem_cons.mp hSmall
    rw [List.find?_cons, List.find?_cons, hKind]
    by_cases hFound : measurement.1 = kind
    · rw [decide_eq_true hFound]
      dsimp only [Option.map_some, Option.getD_some]
      rw [hValue, wholeNumber_ofNat hFirst]
    · rw [decide_eq_false hFound]
      exact ih hRest

/-- The measurements of a function start with its length and hold no other. -/
theorem measurements_eq_cons (unit : FunctionUnit) :
    ∃ rest, unit.measurements = (.functionLength, unit.length) :: rest ∧
      ∀ measurement ∈ rest, measurement.1 ≠ .functionLength := by
  unfold FunctionUnit.measurements
  refine ⟨_, rfl, ?_⟩
  dsimp only
  split_ifs <;> simp

section Function

variable {unit : FunctionUnit} {path : FilePath} {group : List Metric}
  (h : unit.metrics path = .ok group)
include h

theorem forall₂_records : List.Forall₂ Records unit.measurements group :=
  (forall₂_of_mapM h).imp fun _ _ => records_of_create

/-- The metrics of a function start with its length and hold no other. -/
theorem group_starts : ∃ first rest, group = first :: rest ∧ first.kind = .functionLength ∧
    ∀ metric ∈ rest, metric.kind ≠ .functionLength := by
  obtain ⟨others, hMeasurements, hOthers⟩ := measurements_eq_cons unit
  have hRecords := forall₂_records h
  rw [hMeasurements] at hRecords
  obtain ⟨first, rest, hFirst, hRest, rfl⟩ := List.forall₂_cons_left_iff.mp hRecords
  refine ⟨first, rest, rfl, hFirst.1, fun metric hMetric => ?_⟩
  obtain ⟨measurement, hMem, hKind, -⟩ := exists_of_mem_of_forall₂ hRest hMetric
  exact hKind ▸ hOthers measurement hMem

/-- The measurements of a function are read from its metrics. -/
theorem measuredIn_eq (hSmall : ∀ measurement ∈ unit.measurements, measurement.2 < 2 ^ 53) :
    measuredIn group = unit.measured := by
  obtain ⟨hLength, hParameters, hCyclomatic, hNesting, hAny⟩ := measurementIn_measurements unit
  have hValues := valueIn_eq (forall₂_records h) hSmall
  unfold measuredIn FunctionUnit.measured
  rw [hValues, hValues, hValues, hValues, hValues, hLength, hParameters, hCyclomatic, hNesting,
    hAny]

end Function

/-! ## Metrics that are zero -/

/-- Metrics with others put in anywhere that are zero. -/
inductive AddsZeros : List Metric → List Metric → Prop where
  | nil : AddsZeros [] []
  | keep {metrics extended : List Metric} (metric : Metric) (h : AddsZeros metrics extended) :
    AddsZeros (metric :: metrics) (metric :: extended)
  | add {metrics extended : List Metric} {metric : Metric} (hZero : (metric.value == 0.0) = true)
    (h : AddsZeros metrics extended) : AddsZeros metrics (metric :: extended)

/-- No threshold is negative. -/
theorem threshold_bounds :
    ∀ check ∈ Check.all, 0.0 ≤ check.threshold ∧ ¬ check.threshold < 0.0 := by
  apply Check.forall_mem_all
  all_goals decide +kernel

/-- No check makes a finding of a metric that is zero. -/
theorem flags_of_zero {check : Check} (hCheck : check ∈ Check.all) {metric : Metric}
    (hZero : (metric.value == 0.0) = true) : check.flags metric = false := by
  obtain ⟨hNonneg, hNotBelow⟩ := threshold_bounds check hCheck
  have hNotLess : ¬ check.threshold < metric.value := fun hLess =>
    hNotBelow (float_lt_of_lt_of_le hNonneg hLess (float_le_of_beq hZero))
  rw [Check.flags, decide_eq_false hNotLess, Bool.and_false]

namespace AddsZeros

variable {metrics extended : List Metric}

theorem filter_flags (h : AddsZeros metrics extended) {check : Check} (hCheck : check ∈ Check.all) :
    extended.filter check.flags = metrics.filter check.flags := by
  induction h with
  | nil => rfl
  | keep metric _ ih => rw [List.filter_cons, List.filter_cons, ih]
  | add hZero _ ih =>
    rw [List.filter_cons, flags_of_zero hCheck hZero, ih]
    rfl

/-- No rule finds anything else. -/
theorem evaluate_eq (h : AddsZeros metrics extended) (rule : Rule) :
    rule.evaluate extended = rule.evaluate metrics := by
  rw [Rule.evaluate_eq, Rule.evaluate_eq]
  congr 1
  refine List.flatMap_congr fun check hCheck => ?_
  rw [h.filter_flags (Rule.mem_allChecks hCheck)]

end AddsZeros

/-! ## Files that a parser can hold -/

/-- The parser counts the nodes of a tree and its rows in 32 bits, as do the measurements of its
functions. Machine words count the characters. -/
structure ParsedFile.FitsParser (file : ParsedFile) : Prop where
  size_lt : file.tree.size < 2 ^ 32
  row_lt : ∀ node ∈ file.tree.nodes, node.info.stop.row < 2 ^ 32
  characters_lt : file.source.chars.size < 2 ^ 64

namespace ParsedFile

variable {file : ParsedFile}

theorem FitsParser.fitsMachine (h : file.FitsParser) : file.FitsMachine where
  tree_fits := {
    size_lt := h.size_lt.trans (by norm_num)
    row_lt := fun node hNode => (h.row_lt node hNode).trans (by norm_num) }
  characters_lt := h.characters_lt

/-- All measurements of functions are exact as doubles. -/
theorem FitsParser.measurement_lt (h : file.FitsParser) {unit : FunctionUnit}
    (hUnit : unit ∈ file.functionUnits) :
    ∀ measurement ∈ unit.measurements, measurement.2 < 2 ^ 53 := fun _ hMeasured =>
  (measurement_le h.size_lt.le h.row_lt hUnit hMeasured).trans_lt (by norm_num)

/-- The metrics of a file as a whole come first, and behind them those of each function. -/
theorem metrics_eq {front : List Metric} {groups : List (List Metric)}
    (hFront : file.fileMetrics = .ok front)
    (hGroups : file.functionUnits.mapM (FunctionUnit.metrics file.path) = .ok groups) :
    file.metrics = .ok (front ++ groups.flatten) := by
  unfold metrics
  rw [hFront]
  show (file.functionUnits.mapM (FunctionUnit.metrics file.path) >>= _) = _
  rw [hGroups]
  rfl

theorem isSplit_of_metrics {front : List Metric} {groups : List (List Metric)}
    (hFront : file.fileMetrics = .ok front)
    (hGroups : file.functionUnits.mapM (FunctionUnit.metrics file.path) = .ok groups) :
    IsSplit (front ++ groups.flatten) front groups where
  append_eq := rfl
  front_kind metric hMetric hKind := by
    obtain ⟨-, hMem⟩ := kind_of_mem_fileMetrics hFront metric hMetric
    rw [hKind] at hMem
    revert hMem
    decide
  group_kinds group hGroup := by
    obtain ⟨unit, -, hUnit⟩ := exists_of_mem_of_mapM hGroups hGroup
    exact group_starts hUnit

/-- Function by function, the measurements are read from the groups. -/
theorem map_measuredIn (hFits : file.FitsParser) {groups : List (List Metric)}
    (hGroups : file.functionUnits.mapM (FunctionUnit.metrics file.path) = .ok groups) :
    groups.map measuredIn = file.functionUnits.map FunctionUnit.measured := by
  have hAll := (List.forall₂_and_left _ _).mpr
    ⟨fun unit => hFits.measurement_lt, forall₂_of_mapM hGroups⟩
  rw [← List.forall₂_eq_eq_eq, List.forall₂_map_left_iff, List.forall₂_map_right_iff]
  exact hAll.flip.imp fun group unit hBoth => measuredIn_eq hBoth.2 hBoth.1

/-- A file with a path is analysed, and its metrics determine what was measured of its functions:
behind the metrics of the file they can be cut in one way in front of the lengths of functions,
and the measurements of the functions are read from the groups one after the other. Metrics that
are zero make no difference to the findings wherever they are put in. -/
theorem analysis_loses_nothing (hPath : file.path.text ≠ "") (hFits : file.FitsParser) :
    ∃ analysis front groups, file.analyze = .ok analysis ∧
      file.metrics = .ok analysis.metrics ∧ file.fileMetrics = .ok front ∧
      (∀ front' groups',
        IsSplit analysis.metrics front' groups' ↔ front' = front ∧ groups' = groups) ∧
      groups.map measuredIn = file.functionUnits.map FunctionUnit.measured ∧
      ∀ before after extended, AddsZeros (before ++ analysis.metrics ++ after) extended →
        ∀ rule : Rule, rule.evaluate extended =
          rule.evaluate (before ++ analysis.metrics ++ after) := by
  obtain ⟨front, hFront⟩ := exists_fileMetrics hPath hFits.fitsMachine
  obtain ⟨groups, hGroups⟩ := exists_mapM fun unit hUnit =>
    exists_functionMetrics hPath hFits.fitsMachine hUnit
  have hMetrics := metrics_eq hFront hGroups
  have hSplit := isSplit_of_metrics hFront hGroups
  have hAnalyze : file.analyze = .ok
      { path := file.path
        metrics := front ++ groups.flatten
        blocks := file.codeBlocks
        imports := file.imports } := by
    unfold analyze
    rw [hMetrics]
    rfl
  refine ⟨_, front, groups, hAnalyze, hMetrics, hFront, fun front' groups' => ⟨?_, ?_⟩,
    map_measuredIn hFits hGroups, fun _ _ _ hZeros => hZeros.evaluate_eq⟩
  · exact hSplit.unique
  · rintro ⟨rfl, rfl⟩
    exact hSplit

/-- The arrow function `()=>0` at an offset. -/
def arrowAt (offset : ℕ) : SyntaxTree :=
  scriptNode "arrow_function" none offset (offset + 5)
    [scriptNode "formal_parameters" (some "parameters") offset (offset + 2) [],
     scriptNode "number" (some "body") (offset + 4) (offset + 5) []]

/-- A script of two functions without names, on one line. -/
def twoArrows : ParsedFile where
  path := ⟨"a.js"⟩
  source := .ofString "()=>0;()=>0"
  language := .javaScript
  tree := scriptNode "program" none 0 11 [arrowAt 0, arrowAt 6]

theorem analysis_loses_nothing_twoArrows :
    ∃ analysis front groups, twoArrows.analyze = .ok analysis ∧
      IsSplit analysis.metrics front groups ∧
      groups.map measuredIn = [⟨1, 0, 1, 0, 0⟩, ⟨1, 0, 1, 0, 0⟩] := by
  have hPath : twoArrows.path.text ≠ "" := by decide
  have hFits : twoArrows.FitsParser :=
    ⟨by decide +kernel, by decide +kernel, by decide +kernel⟩
  obtain ⟨analysis, front, groups, hAnalyze, -, -, hSplit, hMeasured, -⟩ :=
    analysis_loses_nothing hPath hFits
  exact ⟨analysis, front, groups, hAnalyze, (hSplit front groups).mpr ⟨rfl, rfl⟩,
    hMeasured.trans (by decide +kernel)⟩

end ParsedFile

end DebtGauge
