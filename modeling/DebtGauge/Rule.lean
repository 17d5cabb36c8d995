/-!
# Rules, metrics and severities

The vocabulary of an analysis: what is measured, which rules look at the measurements,
and how grave a finding of a rule is.

Main definitions:

* `MetricKind` — what a metric measures;
* `Severity` — how grave a finding is;
* `Rule` — the closed set of rules, with their names, penalty points and scales.
-/

namespace DebtGauge

/-- What a metric measures. -/
inductive MetricKind where
  | cyclomaticComplexity
  | nestingDepth
  | fileLength
  | functionLength
  | parameterCount
  | anyUsage
  | todoComments
  | fixmeComments
  | codeDuplication
  | circularDependency
deriving DecidableEq

namespace MetricKind

/-- The name of a kind of metric. -/
def name : MetricKind → String
  | cyclomaticComplexity => "cyclomatic-complexity"
  | nestingDepth => "nesting-depth"
  | fileLength => "file-length"
  | functionLength => "function-length"
  | parameterCount => "parameter-count"
  | anyUsage => "any-usage"
  | todoComments => "todo-comments"
  | fixmeComments => "fixme-comments"
  | codeDuplication => "code-duplication"
  | circularDependency => "circular-dependency"

/-- All kinds of metric. -/
def all : List MetricKind :=
  [cyclomaticComplexity, nestingDepth, fileLength, functionLength, parameterCount, anyUsage,
   todoComments, fixmeComments, codeDuplication, circularDependency]

/-- The kind of metric with a given name. -/
def ofName? (text : String) : Option MetricKind :=
  all.find? (·.name = text)

theorem ofName?_name (kind : MetricKind) : ofName? kind.name = some kind := by
  cases kind <;> decide

end MetricKind

/-- How grave a finding is. -/
inductive Severity where
  | low
  | medium
  | high
deriving DecidableEq

namespace Severity

/-- The name of a severity. -/
def name : Severity → String
  | low => "low"
  | medium => "medium"
  | high => "high"

/-- All severities, the least grave first. -/
def all : List Severity := [low, medium, high]

/-- The severity with a given name. -/
def ofName? (text : String) : Option Severity :=
  all.find? (·.name = text)

theorem ofName?_name (severity : Severity) : ofName? severity.name = some severity := by
  cases severity <;> decide

/-- The rank of a severity; a graver one ranks higher. -/
def rank : Severity → Nat
  | low => 0
  | medium => 1
  | high => 2

end Severity

/-- The penalty points of a finding, by its severity. -/
structure SeverityPoints where
  high : Float
  medium : Float
  low : Float

/-- The points of a severity. -/
def SeverityPoints.of (points : SeverityPoints) : Severity → Float
  | .high => points.high
  | .medium => points.medium
  | .low => points.low

/-- A rule. Rules are also the categories of a score. -/
inductive Rule where
  | complexity
  | size
  | typeSafety
  | duplication
  | circularDependency
deriving DecidableEq

namespace Rule

/-- All rules, in the order of a report. -/
def all : List Rule := [complexity, size, typeSafety, duplication, circularDependency]

/-- The identifier of a rule. -/
def id : Rule → String
  | complexity => "complexity"
  | size => "size"
  | typeSafety => "type-safety"
  | duplication => "duplication"
  | circularDependency => "circular-dependency"

/-- The rule with a given identifier. -/
def ofId? (text : String) : Option Rule :=
  all.find? (·.id = text)

theorem mem_all (rule : Rule) : rule ∈ all := by cases rule <;> decide

theorem ofId?_id (rule : Rule) : ofId? rule.id = some rule := by cases rule <;> decide

/-- The title of a rule. -/
def title : Rule → String
  | complexity => "Complexity"
  | size => "Size"
  | typeSafety => "Type Safety"
  | duplication => "Duplication"
  | circularDependency => "Circular Dependencies"

/-- What a rule looks at. -/
def description : Rule → String
  | complexity => "Cyclomatic complexity and nesting depth of functions"
  | size => "File length, function length and parameter count"
  | typeSafety => "Use of the any type in parameter and return annotations"
  | duplication => "Near-duplicate functions across the analyzed files"
  | circularDependency => "Import cycles between local modules"

/-- The penalty points of a rule's findings. -/
def points : Rule → SeverityPoints
  | complexity => ⟨10.0, 5.0, 2.0⟩
  | size => ⟨8.0, 4.0, 2.0⟩
  | typeSafety => ⟨10.0, 5.0, 2.0⟩
  | duplication => ⟨15.0, 8.0, 4.0⟩
  | circularDependency => ⟨20.0, 12.0, 6.0⟩

/-- The factor on the penalty per file; a rule without one counts the bare penalty,
whatever the number of files. -/
def scale? : Rule → Option Float
  | complexity => some 10.0
  | size => none
  | typeSafety => some 1.0
  | duplication => some 8.0
  | circularDependency => some 10.0

end Rule

end DebtGauge
