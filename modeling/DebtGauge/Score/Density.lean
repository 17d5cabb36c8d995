import DebtGauge.Decimal.Binary
import DebtGauge.Finding

/-!
# The score of a category

A category starts with a hundred points, and each finding takes points away by its
severity. For most rules the loss is spread over the files of the run and multiplied by a
scale of the rule, so that a large project is not punished for its size.

Main definitions:

* `round2` — a number rounded to two decimals;
* `densityScore` — the score of findings with the given severities;
* `Rule.score` — the score of a rule's findings.
-/

namespace DebtGauge

/-- The score of a category without findings. -/
def perfectScore : Float := 100.0

/-- A number rounded to two decimals, a half going away from zero. -/
def round2 (x : Float) : Float :=
  Decimal.roundHalfAway (x * 100.0) / 100.0

/-- The sum of numbers from left to right. A sum of none is minus zero, the neutral
element of addition. -/
def total (xs : List Float) : Float :=
  xs.foldl (· + ·) (-0.0)

/-- A number, or zero if it is negative or no number. -/
def atLeastZero (x : Float) : Float :=
  if 0.0 ≤ x then x else 0.0

/-- The points that findings with the given severities take away. A scale applies only
where the number of files is known and not zero. -/
def penalty (points : SeverityPoints) (scale : Option Float) (totalFiles : Option Nat)
    (severities : List Severity) : Float :=
  let raw := total (severities.map points.of)
  match scale, totalFiles with
  | some scale, some (files + 1) => raw / Float.ofNat (files + 1) * scale
  | _, _ => raw

/-- The score of findings with the given severities. -/
def densityScore (points : SeverityPoints) (scale : Option Float) (totalFiles : Option Nat)
    (severities : List Severity) : Float :=
  if severities.isEmpty then perfectScore
  else round2 (atLeastZero (perfectScore - penalty points scale totalFiles severities))

/-- The score of a rule's findings in a run over the given number of files. -/
def Rule.score (rule : Rule) (totalFiles : Option Nat) (findings : List Finding) : Float :=
  densityScore rule.points rule.scale? totalFiles (findings.map (·.severity))

end DebtGauge
