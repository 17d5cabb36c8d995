import DebtGauge.Finding
import DebtGauge.FunctionUnit.Measurement
import DebtGauge.Duplication.Grouping

/-!
# What the rules check

A rule is a list of checks, each for one kind of metric: a metric above the threshold of
its kind becomes a finding, whose severity depends on how far above it is.

Main definitions:

* `Check` — a kind of metric with its threshold, its severities and its texts;
* `Rule.checks` — the checks of a rule;
* `Rule.evaluate` — the findings of a rule.
-/

namespace DebtGauge

/-- A metric of the kind `kind` above `threshold` is a finding. -/
structure Check where
  kind : MetricKind
  threshold : Float
  severity : Float → Severity
  message : Metric → String
  suggestion : String

namespace Check

/-- High above a limit, and medium up to it. -/
def highAbove (limit value : Float) : Severity :=
  if limit < value then .high else .medium

/-- The label of a function's metric. -/
def functionLabel (metric : Metric) : String :=
  metric.contextOr FunctionUnit.anonymousLabel

/-- Whether a metric is one that a check makes a finding of. -/
def flags (check : Check) (metric : Metric) : Bool :=
  metric.kind = check.kind && check.threshold < metric.value

/-- The finding that a rule's check makes of a metric. -/
def finding (check : Check) (ruleId : String) (metric : Metric) : Except Failure Finding :=
  Finding.create ruleId (check.severity metric.value) (check.message metric) metric.path
    metric.location (some check.suggestion)

/-- The findings that a rule's check makes of metrics, in their order. -/
def findings (check : Check) (ruleId : String) (metrics : List Metric) :
    Except Failure (List Finding) :=
  (metrics.filter check.flags).mapM (check.finding ruleId)

/-! ## The checks -/

/-- Functions that branch too much. -/
def cyclomaticComplexity : Check where
  kind := .cyclomaticComplexity
  threshold := 10.0
  severity := highAbove 20.0
  message metric :=
    s!"Function '{functionLabel metric}' has cyclomatic complexity of " ++
      s!"{Decimal.plainText metric.value} (threshold: 10)"
  suggestion := "Split the function into smaller functions with a single responsibility"

/-- Functions that nest too much. -/
def nestingDepth : Check where
  kind := .nestingDepth
  threshold := 4.0
  severity := highAbove 6.0
  message metric :=
    s!"Function '{functionLabel metric}' has nesting depth of " ++
      s!"{Decimal.plainText metric.value} (threshold: 4)"
  suggestion := "Use early returns or extract nested blocks into helper functions"

/-- Files that are too long. -/
def fileLength : Check where
  kind := .fileLength
  threshold := 300.0
  severity := highAbove 500.0
  message metric :=
    s!"File '{metric.path.displayName}' has {Decimal.plainText metric.value} lines " ++
      "(threshold: 300)"
  suggestion := "Split the file into smaller modules grouped by responsibility"

/-- Functions that are too long. -/
def functionLength : Check where
  kind := .functionLength
  threshold := 50.0
  severity := highAbove 100.0
  message metric :=
    s!"Function '{functionLabel metric}' has {Decimal.plainText metric.value} lines " ++
      "(threshold: 50)"
  suggestion := "Extract cohesive sections of the function into helpers"

/-- Functions with too many parameters. -/
def parameterCount : Check where
  kind := .parameterCount
  threshold := 5.0
  severity _ := .medium
  message metric :=
    s!"Function '{functionLabel metric}' takes {Decimal.plainText metric.value} parameters " ++
      "(threshold: 5)"
  suggestion := "Group related parameters into an options object"

/-- Functions whose signatures use the type `any`. -/
def anyUsage : Check where
  kind := .anyUsage
  threshold := 0.0
  severity := highAbove 5.0
  message metric :=
    s!"Function '{functionLabel metric}' uses 'any' {Decimal.plainText metric.value} " ++
      "time(s) in its signature"
  suggestion := "Replace 'any' with a specific type, a generic, or 'unknown'"

/-- Functions with near duplicates. -/
def codeDuplication : Check where
  kind := .codeDuplication
  threshold := 0.0
  severity value := if 5.0 < value then .high else if 2.0 < value then .medium else .low
  message metric :=
    s!"'{metric.contextOr DuplicateDetector.unnamedLabel}' has " ++
      s!"{Decimal.plainText metric.value} near-duplicate copy(ies)"
  suggestion := "Extract the shared logic into a single reusable function"

/-- Files that import each other in a circle. -/
def circularDependency : Check where
  kind := .circularDependency
  threshold := 0.0
  severity value := if 4.0 ≤ value then .high else if 3.0 ≤ value then .medium else .low
  message metric :=
    let chain := (metric.context.map (": " ++ ·)).getD ""
    s!"Circular dependency between {Decimal.plainText metric.value} files{chain}"
  suggestion := "Move the shared code into a separate module or invert one of the imports"

end Check

namespace Rule

/-- The checks of a rule, in the order of its findings. -/
def checks : Rule → List Check
  | complexity => [.cyclomaticComplexity, .nestingDepth]
  | size => [.fileLength, .functionLength, .parameterCount]
  | typeSafety => [.anyUsage]
  | duplication => [.codeDuplication]
  | circularDependency => [.circularDependency]

/-- The findings of a rule: check by check, and within a check in the order of the
metrics. -/
def evaluate (rule : Rule) (metrics : List Metric) : Except Failure (List Finding) :=
  (rule.checks.mapM fun (check : Check) => check.findings rule.id metrics).map List.flatten

end Rule

end DebtGauge
