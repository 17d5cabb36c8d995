import DebtGauge.Score.Aggregation
import Mathlib.Data.List.Forall2

/-!
# What an aggregation makes

An aggregation fails only for its weights. Otherwise each score becomes a category, in the
same order.

Main definitions and results:

* `categoriesOf` — the categories of scores with given weights;
* `aggregate_eq` — an aggregation checks the weights, and then makes the categories;
* `forall₂_categoriesOf` — each category is that of one rule, with its score;
* `forall₂_categoriesOf_of_forall₂` — the categories of different scores for the same rules.
-/

namespace DebtGauge

/-- The rescaled weights of rules. -/
def rescaledWeights (weights : Weights) (rules : List Rule) : List Float :=
  normalizeWeights (rules.map weights.get)

/-- The categories that are made of scores. -/
def categoriesOf (weights : Weights) (scores : List (Rule × Float)) : List CategoryScore :=
  (scores.zip (rescaledWeights weights (scores.map (·.1)))).map fun ((rule, score), weight) =>
    categoryScore rule score weight

@[simp]
theorem length_normalizeWeights (weights : List Float) :
    (normalizeWeights weights).length = weights.length := by
  unfold normalizeWeights
  dsimp only
  split
  case isTrue hEmpty =>
    rw [List.isEmpty_iff.mp hEmpty]
  case isFalse =>
    split
    · rw [List.length_replicate]
    · rw [List.length_map]

@[simp]
theorem length_rescaledWeights (weights : Weights) (rules : List Rule) :
    (rescaledWeights weights rules).length = rules.length := by
  rw [rescaledWeights, length_normalizeWeights, List.length_map]

/-- An aggregation checks the weights of the rules, and then makes the categories. -/
theorem aggregate_eq (weights : Weights) (scores : List (Rule × Float)) (totals : ScoreTotals)
    (now : Instant) :
    aggregate weights scores totals now =
      (ensureWeightSum (rescaledWeights weights (scores.map (·.1)))).map fun _ =>
        { overall := overallScore (categoriesOf weights scores)
          categories := categoriesOf weights scores
          timestamp := now
          totals := totals } := by
  unfold aggregate categoriesOf
  dsimp only
  generalize hNormalized : normalizeWeights _ = normalized
  have hWeights : normalized = rescaledWeights weights (scores.map (·.1)) := by
    rw [← hNormalized, rescaledWeights, List.map_map]
    rfl
  rw [hWeights]
  cases ensureWeightSum (rescaledWeights weights (scores.map (·.1))) with
  | error failure => rfl
  | ok => rfl

/-- Each category is that of one rule, with its score. -/
theorem forall₂_categoriesOf (weights : Weights) (scores : List (Rule × Float)) :
    List.Forall₂ (fun entry category => category.name = entry.1.id ∧ category.score = entry.2)
      scores (categoriesOf weights scores) := by
  have hLength : (rescaledWeights weights (scores.map (·.1))).length = scores.length := by
    rw [length_rescaledWeights, List.length_map]
  unfold categoriesOf
  generalize rescaledWeights weights (scores.map (·.1)) = rescaled at hLength
  induction scores generalizing rescaled with
  | nil => exact .nil
  | cons entry scores ih =>
    obtain ⟨weight, rescaled, rfl⟩ := List.exists_cons_of_length_eq_add_one hLength
    exact .cons ⟨rfl, rfl⟩ (ih rescaled (Nat.succ.inj hLength))

/-- A category is made of one of the scores and one of the rescaled weights. -/
theorem exists_of_mem_categoriesOf {weights : Weights} {scores : List (Rule × Float)}
    {category : CategoryScore} (h : category ∈ categoriesOf weights scores) :
    ∃ entry ∈ scores, ∃ weight ∈ rescaledWeights weights (scores.map (·.1)),
      category = categoryScore entry.1 entry.2 weight := by
  obtain ⟨⟨entry, weight⟩, hPair, rfl⟩ := List.mem_map.mp h
  obtain ⟨hEntry, hWeight⟩ := List.of_mem_zip hPair
  exact ⟨entry, hEntry, weight, hWeight, rfl⟩

/-- The categories of different scores for the same rules have the same weights. -/
theorem forall₂_categoriesOf_of_forall₂ {R : Float → Float → Prop} (weights : Weights)
    {scores others : List (Rule × Float)}
    (h : List.Forall₂ (fun entry other => entry.1 = other.1 ∧ R entry.2 other.2) scores others) :
    List.Forall₂ (fun category other => ∃ rule score score' weight, R score score' ∧
      category = categoryScore rule score weight ∧ other = categoryScore rule score' weight)
      (categoriesOf weights scores) (categoriesOf weights others) := by
  have hRules : scores.map (·.1) = others.map (·.1) := by
    induction h with
    | nil => rfl
    | cons hHead _ ih => rw [List.map_cons, List.map_cons, hHead.1, ih]
  unfold categoriesOf
  rw [hRules]
  generalize rescaledWeights weights (others.map (·.1)) = rescaled
  clear hRules
  induction h generalizing rescaled with
  | nil => exact .nil
  | @cons entry other _ _ hHead _ ih =>
    cases rescaled with
    | nil => exact .nil
    | cons weight rescaled =>
      refine .cons ⟨entry.1, entry.2, other.2, weight, hHead.2, rfl, ?_⟩ (ih rescaled)
      rw [hHead.1]

end DebtGauge
