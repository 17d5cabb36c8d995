import DebtGauge.Report.Basic
import DebtGauge.Score.Density
import DebtGauge.Score.Weights

/-!
# The overall score

The scores of the categories that take part in a run, weighted. The weights are rescaled
so that they sum to one; weights that are all zero become equal.

Main definitions:

* `normalizeWeights` — the rescaled weights;
* `ensureWeightSum` — fails unless weights sum to one, up to a tolerance;
* `aggregate` — the overall score of category scores.
-/

namespace DebtGauge

/-- How far the sum of rescaled weights may be from one. -/
def weightSumTolerance : Float := 0.01

/-- Weights rescaled to sum to one. -/
def normalizeWeights (weights : List Float) : List Float :=
  let sum := total weights
  if weights.isEmpty then []
  else if sum == 0.0 then
    List.replicate weights.length (1.0 / Float.ofNat weights.length)
  else weights.map (· / sum)

/-- Fails unless the weights sum to one; a sum that is no number fails too. -/
def ensureWeightSum (weights : List Float) : Except Failure Unit :=
  let sum := total weights
  if weights.isEmpty then .ok ()
  else if (sum - 1.0).abs ≤ weightSumTolerance then .ok ()
  else .error (.weightSum sum)

/-- The score of a category with its weight. -/
def categoryScore (rule : Rule) (score weight : Float) : CategoryScore where
  name := rule.id
  score := score
  weight := weight
  description := some rule.description

/-- The overall score of weighted categories; without any it is perfect. -/
def overallScore (categories : List CategoryScore) : Float :=
  if categories.isEmpty then perfectScore
  else round2 (total (categories.map fun category => category.score * category.weight))

/-- The score of a run, from the scores of its rules. -/
def aggregate (weights : Weights) (scores : List (Rule × Float)) (totals : ScoreTotals)
    (timestamp : Instant) : Except Failure Score := do
  let normalized := normalizeWeights (scores.map fun (rule, _) => weights.get rule)
  ensureWeightSum normalized
  let categories := (scores.zip normalized).map fun ((rule, score), weight) =>
    categoryScore rule score weight
  return { overall := overallScore categories, categories, timestamp, totals }

end DebtGauge
