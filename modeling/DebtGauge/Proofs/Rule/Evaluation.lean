import DebtGauge.Proofs.Sequence
import DebtGauge.Rule.Check

/-!
# What the rules find

A rule goes through its checks, and a check makes one finding of each metric that it flags.
Metrics have a path and the texts of the checks are never blank, so no finding is refused.

Main definitions and results:

* `Check.forall_mem_all` — a case for each check;
* `Check.findingOf`, `Rule.found` — the findings, without the possibility of failure;
* `Rule.evaluate_eq` — evaluating a rule gives them;
* `Rule.ruleId_of_mem_found`, `Rule.exists_of_mem_found` — they carry the identifier of their
  rule, and each belongs to a metric of the kind that one of its checks looks at.
-/

namespace DebtGauge

/-- A text is not blank if it starts with one that is not. -/
theorem Text.isAllBlank_append {s t : String} (h : isAllBlank s = false) :
    isAllBlank (s ++ t) = false := by
  unfold isAllBlank at h ⊢
  rw [String.toList_append, List.all_append, h, Bool.false_and]

namespace Check

/-- The finding that a rule's check makes of a metric. -/
def findingOf (check : Check) (ruleId : String) (metric : Metric) : Finding where
  ruleId := ruleId
  severity := check.severity metric.value
  message := check.message metric
  path := metric.path
  location := metric.location
  suggestion := some check.suggestion

/-- A check that has something to say about each metric makes a finding of it. -/
theorem finding_eq {check : Check} {ruleId : String} (hId : Text.isAllBlank ruleId = false)
    (hMessage : ∀ metric, Text.isAllBlank (check.message metric) = false) (metric : Metric) :
    check.finding ruleId metric = .ok (check.findingOf ruleId metric) := by
  rw [finding, Finding.create, if_neg (by rw [hId]; decide), if_neg (by rw [hMessage]; decide),
    if_neg metric.path_ne]
  rfl

end Check

namespace Check

/-- All checks, rule by rule. -/
def all : List Check :=
  [cyclomaticComplexity, nestingDepth, fileLength, functionLength, parameterCount, anyUsage,
   codeDuplication, circularDependency]

/-- What holds of every check can be shown check by check. -/
theorem forall_mem_all {P : Check → Prop} (cyclomaticComplexity : P cyclomaticComplexity)
    (nestingDepth : P nestingDepth) (fileLength : P fileLength)
    (functionLength : P functionLength) (parameterCount : P parameterCount)
    (anyUsage : P anyUsage) (codeDuplication : P codeDuplication)
    (circularDependency : P circularDependency) : ∀ check ∈ all, P check := by
  simp only [all, List.forall_mem_cons, List.not_mem_nil, false_imp_iff, implies_true, and_true]
  exact ⟨cyclomaticComplexity, nestingDepth, fileLength, functionLength, parameterCount, anyUsage,
    codeDuplication, circularDependency⟩

/-- The message of a check starts with a text of its own. -/
theorem isAllBlank_message :
    ∀ check ∈ all, ∀ metric, Text.isAllBlank (check.message metric) = false := by
  apply forall_mem_all
  -- a message is a text followed by others, so the first one decides
  all_goals
    intro metric
    repeat first
      | decide
      | refine Text.isAllBlank_append ?_

end Check

namespace Rule

theorem isAllBlank_id (rule : Rule) : Text.isAllBlank rule.id = false := by
  cases rule <;> decide

/-- The checks of all rules are all checks. -/
theorem flatMap_checks : all.flatMap checks = Check.all := rfl

theorem mem_allChecks {rule : Rule} {check : Check} (h : check ∈ rule.checks) :
    check ∈ Check.all := by
  rw [← flatMap_checks]
  exact List.mem_flatMap_of_mem rule.mem_all h

/-- The findings of a rule: check by check, and within a check in the order of the
metrics. -/
def found (rule : Rule) (metrics : List Metric) : List Finding :=
  rule.checks.flatMap fun check => (metrics.filter check.flags).map (check.findingOf rule.id)

/-- No finding of a rule is refused. -/
theorem evaluate_eq (rule : Rule) (metrics : List Metric) :
    rule.evaluate metrics = .ok (rule.found metrics) := by
  have hChecks : (rule.checks.mapM fun check => check.findings rule.id metrics) =
      .ok (rule.checks.map fun check =>
        (metrics.filter check.flags).map (check.findingOf rule.id)) := by
    refine mapM_eq_ok_map fun check hCheck => mapM_eq_ok_map fun metric _ => ?_
    have hMessage := Check.isAllBlank_message check (mem_allChecks hCheck)
    exact Check.finding_eq rule.isAllBlank_id hMessage metric
  rw [evaluate, hChecks]
  rfl

theorem ruleId_of_mem_found {rule : Rule} {metrics : List Metric} {finding : Finding}
    (h : finding ∈ rule.found metrics) : finding.ruleId = rule.id := by
  obtain ⟨check, _, hFinding⟩ := List.mem_flatMap.mp h
  obtain ⟨metric, _, rfl⟩ := List.mem_map.mp hFinding
  rfl

/-- A finding is made of a metric by a check of its rule, for metrics of its kind. -/
theorem exists_of_mem_found {rule : Rule} {metrics : List Metric} {finding : Finding}
    (h : finding ∈ rule.found metrics) : ∃ check ∈ rule.checks, ∃ metric ∈ metrics,
      metric.kind = check.kind ∧ finding = check.findingOf rule.id metric := by
  obtain ⟨check, hCheck, hFinding⟩ := List.mem_flatMap.mp h
  obtain ⟨metric, hMetric, rfl⟩ := List.mem_map.mp hFinding
  obtain ⟨hMem, hFlags⟩ := List.mem_filter.mp hMetric
  rw [Check.flags, Bool.and_eq_true, decide_eq_true_eq] at hFlags
  exact ⟨check, hCheck, metric, hMem, hFlags.1, rfl⟩

/-- One rule looks at the metrics of import cycles, and at no others. -/
theorem kind_eq_circularDependency_iff {rule : Rule} {check : Check} (h : check ∈ rule.checks) :
    check.kind = .circularDependency ↔ rule = .circularDependency := by
  cases rule <;> simp only [checks, List.mem_cons, List.not_mem_nil, or_false] at h
  case complexity => rcases h with rfl | rfl <;> decide
  case size => rcases h with rfl | rfl | rfl <;> decide
  case typeSafety | duplication | circularDependency =>
    subst h
    decide

end Rule

end DebtGauge
