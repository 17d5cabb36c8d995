import DebtGauge.Proofs.Double.Value
import DebtGauge.Proofs.Rule.Evaluation
import Mathlib.Data.List.Forall2
import Mathlib.Data.List.Nodup

/-!
# How the rules share the metrics out

Each kind of metric has at most one rule that looks at it, and a threshold. A metric above
the threshold of its kind becomes a finding of that rule, and no other metric becomes one. What
stands above a threshold or a limit stays above it when it grows, so a finding of a larger
value is at least as grave.

Main definitions:

* `Rule.kinds`, `MetricKind.threshold?` — who looks at which metrics, and from when on;
* `Rule.flagged` — the metrics that become findings, with their positions;
* `Rule.FindingOf` — what a finding takes over from its metric.

Main results:

* `Rule.forall₂_found` — the findings of a rule, metric by metric;
* `Check.rank_severity_le` — the severity of a check grows with the value;
* `Rule.nodup_positions`, `Rule.mem_positions` — the rules share the excessive metrics out;
* `Rule.evaluate_shares_out` — what the rules find in a list of metrics.
-/

namespace DebtGauge

theorem forall₂_flatMap {α β γ : Type} {R : α → β → Prop} {f : γ → List α} {g : γ → List β}
    {xs : List γ} (h : ∀ x ∈ xs, List.Forall₂ R (f x) (g x)) :
    List.Forall₂ R (xs.flatMap f) (xs.flatMap g) := by
  induction xs with
  | nil => exact .nil
  | cons x xs ih =>
    obtain ⟨hFirst, hRest⟩ := List.forall_mem_cons.mp h
    exact List.rel_append hFirst (ih hRest)

/-! ## Kinds and thresholds -/

/-- The value above which a metric of a kind is a finding; markers in comments are none. -/
def MetricKind.threshold? : MetricKind → Option Float
  | cyclomaticComplexity => some 10.0
  | nestingDepth => some 4.0
  | fileLength => some 300.0
  | functionLength => some 50.0
  | parameterCount => some 5.0
  | anyUsage | codeDuplication | circularDependency => some 0.0
  | todoComments | fixmeComments => none

theorem MetricKind.zero_le_of_threshold? {kind : MetricKind} {threshold : Float}
    (h : kind.threshold? = some threshold) : 0.0 ≤ threshold := by
  cases kind <;> cases h <;> decide

/-- The kinds of metric that a rule looks at, in the order of its findings. -/
def Rule.kinds : Rule → List MetricKind
  | complexity => [.cyclomaticComplexity, .nestingDepth]
  | size => [.fileLength, .functionLength, .parameterCount]
  | typeSafety => [.anyUsage]
  | duplication => [.codeDuplication]
  | circularDependency => [.circularDependency]

namespace Metric

/-- Whether a metric is above the threshold of its kind. -/
def isExcessive (metric : Metric) : Bool :=
  metric.kind.threshold?.any (· < metric.value)

/-- What grows stays above the threshold of its kind. -/
theorem isExcessive_of_le {metric metric' : Metric} (hKind : metric.kind = metric'.kind)
    (hValue : metric.value ≤ metric'.value) (h : metric.isExcessive = true) :
    metric'.isExcessive = true := by
  obtain ⟨threshold, hThreshold, hAbove⟩ := (Option.any_eq_true _ _).mp h
  have hAbove' : threshold < metric'.value :=
    Double.float_lt_of_lt_of_le (MetricKind.zero_le_of_threshold? hThreshold)
      (of_decide_eq_true hAbove) hValue
  rw [isExcessive, ← hKind, hThreshold, Option.any_some]
  exact decide_eq_true hAbove'

/-- The excessive metrics of a kind, each with its position in the list. -/
def flagged (metrics : List Metric) (kind : MetricKind) : List (Metric × Nat) :=
  metrics.zipIdx.filter fun entry => entry.1.kind = kind && entry.1.isExcessive

theorem mem_flagged {metrics : List Metric} {kind : MetricKind} {entry : Metric × Nat} :
    entry ∈ flagged metrics kind ↔
      metrics[entry.2]? = some entry.1 ∧ entry.1.kind = kind ∧ entry.1.isExcessive = true := by
  rw [flagged, List.mem_filter, List.mem_zipIdx_iff_getElem?, Bool.and_eq_true, decide_eq_true_eq]

theorem nodup_map_snd_flagged (metrics : List Metric) (kind : MetricKind) :
    ((flagged metrics kind).map Prod.snd).Nodup := by
  have hSublist : ((flagged metrics kind).map Prod.snd).Sublist (metrics.zipIdx.map Prod.snd) :=
    List.filter_sublist.map Prod.snd
  rw [List.zipIdx_map_snd] at hSublist
  exact hSublist.nodup List.nodup_range'

end Metric

/-! ## The checks -/

namespace Check

theorem threshold?_kind : ∀ check ∈ all, check.kind.threshold? = some check.threshold := by
  apply forall_mem_all <;> rfl

/-- A check flags the excessive metrics of its kind. -/
theorem flags_eq {check : Check} (h : check ∈ all) (metric : Metric) :
    check.flags metric = (decide (metric.kind = check.kind) && metric.isExcessive) := by
  rw [flags]
  -- the thresholds are compared for metrics of the check's kind only
  by_cases hKind : metric.kind = check.kind
  · rw [Metric.isExcessive, hKind, threshold?_kind check h, Option.any_some]
  · rw [decide_eq_false hKind, Bool.false_and, Bool.false_and]

theorem filter_flags {check : Check} (h : check ∈ all) (metrics : List Metric) :
    metrics.filter check.flags = (Metric.flagged metrics check.kind).map Prod.fst := by
  rw [Metric.flagged, List.filter_congr fun metric _ => flags_eq h metric]
  -- positions are added, and dropped again behind the filter
  conv_lhs => rw [← List.zipIdx_map_fst 0 metrics, List.filter_map]
  rfl

/-! ### Severities -/

/-- What is graver on a condition that growing keeps does not become less grave. -/
theorem rank_ite_le {p p' : Prop} [Decidable p] [Decidable p'] {graver least least' : Severity}
    (hp : p → p') (hGraver : least.rank ≤ graver.rank) (hLeast : least.rank ≤ least'.rank) :
    (if p then graver else least).rank ≤ (if p' then graver else least').rank := by
  split_ifs with h h'
  · exact Nat.le_refl _
  · exact absurd (hp h) h'
  · exact hGraver
  · exact hLeast

theorem rank_le_high (severity : Severity) : severity.rank ≤ Severity.high.rank := by
  cases severity <;> decide

section Severities

open Double

variable {value value' : Float}

theorem rank_highAbove_le {limit : Float} (hLimit : 0.0 ≤ limit) (h : value ≤ value') :
    (highAbove limit value).rank ≤ (highAbove limit value').rank :=
  rank_ite_le (fun hHigh => float_lt_of_lt_of_le hLimit hHigh h) (by decide) (Nat.le_refl _)

/-- The severity of a check grows with the value. -/
theorem rank_severity_le (h : value ≤ value') :
    ∀ check ∈ all, (check.severity value).rank ≤ (check.severity value').rank := by
  apply forall_mem_all
  case parameterCount => exact Nat.le_refl _
  case codeDuplication =>
    have hMedium : 2.0 < value → 2.0 < value' := (float_lt_of_lt_of_le (by decide) · h)
    have hHigh : 5.0 < value → 5.0 < value' := (float_lt_of_lt_of_le (by decide) · h)
    exact rank_ite_le hHigh (rank_le_high _) (rank_ite_le hMedium (by decide) (Nat.le_refl _))
  case circularDependency =>
    -- the limits of this check are not strict
    have hMedium : 3.0 ≤ value → 3.0 ≤ value' := (float_le_trans (by decide) · h)
    have hHigh : 4.0 ≤ value → 4.0 ≤ value' := (float_le_trans (by decide) · h)
    exact rank_ite_le hHigh (rank_le_high _) (rank_ite_le hMedium (by decide) (Nat.le_refl _))
  all_goals exact rank_highAbove_le (by decide) h

end Severities

end Check

/-! ## The findings of the rules -/

namespace Rule

/-- The metrics that a rule makes findings of: kind by kind, and within a kind in their
order. -/
def flagged (rule : Rule) (metrics : List Metric) : List (Metric × Nat) :=
  rule.kinds.flatMap (Metric.flagged metrics)

/-- The positions of the metrics that some rule makes findings of, rule by rule. -/
def positions (metrics : List Metric) : List Nat :=
  all.flatMap fun rule => (rule.flagged metrics).map Prod.snd

/-- A finding of a rule is where its metric is. -/
structure FindingOf (rule : Rule) (entry : Metric × Nat) (finding : Finding) : Prop where
  path : finding.path = entry.1.path
  location : finding.location = entry.1.location
  ruleId : finding.ruleId = rule.id

variable {rule : Rule} {metrics : List Metric}

theorem kinds_eq_map (rule : Rule) : rule.kinds = rule.checks.map Check.kind := by
  cases rule <;> rfl

/-- No kind of metric is looked at twice. -/
theorem nodup_kinds : (all.flatMap kinds).Nodup := by decide

theorem mem_kinds_iff (kind : MetricKind) :
    kind ∈ all.flatMap kinds ↔ kind.threshold?.isSome = true := by
  cases kind <;> decide

/-- A rule has one check for a kind of metric. -/
theorem check_eq_of_kind_eq {check check' : Check} (h : check ∈ rule.checks)
    (h' : check' ∈ rule.checks) (hKind : check.kind = check'.kind) : check = check' := by
  have hNodup : (rule.checks.map Check.kind).Nodup := by
    rw [← kinds_eq_map]
    exact (List.nodup_flatMap.mp nodup_kinds).1 rule rule.mem_all
  exact List.inj_on_of_nodup_map hNodup h h' hKind

/-- The findings of a rule, metric by metric: each is made by the check of the metric's kind. -/
theorem forall₂_found (rule : Rule) (metrics : List Metric) :
    List.Forall₂ (fun entry finding => ∃ check ∈ rule.checks, entry.1.kind = check.kind ∧
      finding = check.findingOf rule.id entry.1) (rule.flagged metrics) (rule.found metrics) := by
  rw [flagged, kinds_eq_map, List.flatMap_map, found]
  refine forall₂_flatMap fun check hCheck => ?_
  rw [Check.filter_flags (mem_allChecks hCheck), List.map_map, List.forall₂_map_right_iff,
    List.forall₂_same]
  intro entry hEntry
  exact ⟨check, hCheck, (Metric.mem_flagged.mp hEntry).2.1, rfl⟩

/-- Of two metrics of a kind the larger one is at least as grave. -/
theorem rank_le_of_mem_zip {entry entry' : Metric × Nat} {finding finding' : Finding}
    (h : (entry, finding) ∈ (rule.flagged metrics).zip (rule.found metrics))
    (h' : (entry', finding') ∈ (rule.flagged metrics).zip (rule.found metrics))
    (hKind : entry.1.kind = entry'.1.kind) (hValue : entry.1.value ≤ entry'.1.value) :
    finding.severity.rank ≤ finding'.severity.rank := by
  obtain ⟨-, hFound⟩ := List.forall₂_iff_zip.mp (rule.forall₂_found metrics)
  obtain ⟨check, hCheck, hOf, rfl⟩ := hFound h
  obtain ⟨check', hCheck', hOf', rfl⟩ := hFound h'
  -- both findings are made by the check of the one kind
  obtain rfl := check_eq_of_kind_eq hCheck hCheck' (by rw [← hOf, ← hOf', hKind])
  exact Check.rank_severity_le hValue check (mem_allChecks hCheck)

theorem positions_eq (metrics : List Metric) :
    positions metrics =
      (all.flatMap kinds).flatMap fun kind => (Metric.flagged metrics kind).map Prod.snd := by
  simp only [positions, flagged, List.map_flatMap, List.flatMap_assoc]

/-- No two findings are of one metric. -/
theorem nodup_positions (metrics : List Metric) : (positions metrics).Nodup := by
  rw [positions_eq, List.nodup_flatMap]
  refine ⟨fun kind _ => Metric.nodup_map_snd_flagged metrics kind, ?_⟩
  refine List.Pairwise.imp ?_ nodup_kinds
  -- a metric has one kind
  rintro kind kind' hne position hPosition hPosition'
  obtain ⟨entry, hEntry, rfl⟩ := List.mem_map.mp hPosition
  obtain ⟨entry', hEntry', hEq⟩ := List.mem_map.mp hPosition'
  obtain ⟨hMetric, hKind, -⟩ := Metric.mem_flagged.mp hEntry
  obtain ⟨hMetric', hKind', -⟩ := Metric.mem_flagged.mp hEntry'
  rw [hEq, hMetric] at hMetric'
  exact hne (by rw [← hKind, ← hKind', Option.some.inj hMetric'])

/-- The metrics that are found are those above the threshold of their kind. -/
theorem mem_positions {position : Nat} :
    position ∈ positions metrics ↔
      ∃ metric, metrics[position]? = some metric ∧ metric.isExcessive = true := by
  rw [positions_eq, List.mem_flatMap]
  constructor
  · rintro ⟨kind, -, hPosition⟩
    obtain ⟨entry, hEntry, rfl⟩ := List.mem_map.mp hPosition
    obtain ⟨hMetric, -, hExcessive⟩ := Metric.mem_flagged.mp hEntry
    exact ⟨entry.1, hMetric, hExcessive⟩
  · rintro ⟨metric, hMetric, hExcessive⟩
    obtain ⟨threshold, hThreshold, -⟩ := (Option.any_eq_true _ _).mp hExcessive
    refine ⟨metric.kind, (mem_kinds_iff metric.kind).mpr (by rw [hThreshold]; rfl), ?_⟩
    have hEntry : (metric, position) ∈ Metric.flagged metrics metric.kind :=
      Metric.mem_flagged.mpr ⟨hMetric, rfl, hExcessive⟩
    exact List.mem_map_of_mem hEntry

/-- Every list of metrics can be evaluated by every rule. A rule makes one finding of each
metric of its kinds that is above the threshold of its kind, kind by kind and within a kind in
the order of the metrics, and the finding is where the metric is. All rules together make one
finding of each excessive metric and none of the others. And of two metrics of one kind the
larger one is found if the other one is, and is at least as grave. -/
theorem evaluate_shares_out (metrics : List Metric) :
    (∀ rule : Rule, ∃ findings, rule.evaluate metrics = .ok findings ∧
      List.Forall₂ rule.FindingOf (rule.flagged metrics) findings ∧
      ∀ entry finding entry' finding',
        (entry, finding) ∈ (rule.flagged metrics).zip findings →
        (entry', finding') ∈ (rule.flagged metrics).zip findings →
        entry.1.kind = entry'.1.kind → entry.1.value ≤ entry'.1.value →
        finding.severity.rank ≤ finding'.severity.rank) ∧
    (positions metrics).Nodup ∧
    (∀ position, position ∈ positions metrics ↔
      ∃ metric, metrics[position]? = some metric ∧ metric.isExcessive = true) ∧
    ∀ metric metric' : Metric, metric.kind = metric'.kind → metric.value ≤ metric'.value →
      metric.isExcessive = true → metric'.isExcessive = true := by
  refine ⟨fun rule => ⟨rule.found metrics, evaluate_eq rule metrics, ?_, ?_⟩,
    nodup_positions metrics, fun _ => mem_positions,
    fun _ _ hKind hValue h => Metric.isExcessive_of_le hKind hValue h⟩
  · refine (rule.forall₂_found metrics).imp ?_
    rintro entry _ ⟨check, -, -, rfl⟩
    exact ⟨rfl, rfl, rfl⟩
  · intro entry finding entry' finding' h h' hKind hValue
    exact rank_le_of_mem_zip h h' hKind hValue

end Rule

end DebtGauge
