import DebtGauge.Proofs.Score.Aggregation
import DebtGauge.Proofs.Score.Density

/-!
# The overall score as a number

Proper weights are rescaled to weights of at most one, and the overall score is the sum of the
weighted scores, rounded. It stands for a number that is monotone in the scores.

Main results:

* `rescaledWeights_bounds` — rescaled weights lie between zero and one;
* `represents_overallScore` — the number that the overall score stands for;
* `overallScore_le` — lower scores do not make a higher overall score.
-/

namespace DebtGauge

open Double
open scoped ENNReal

/-! ## Weights -/

theorem Weights.isProper_of_validate {weights : Weights} (h : weights.validate = .ok ())
    (rule : Rule) : isProper (weights.get rule) = true := by
  unfold validate at h
  cases hFind : Rule.all.find? fun rule => !isProper (weights.get rule) with
  | some other =>
    rw [hFind] at h
    cases h
  | none =>
    have hAll := List.find?_eq_none.mp hFind rule rule.mem_all
    rwa [Bool.not_eq_true, Bool.not_eq_false'] at hAll

/-- A finite double that is not negative. -/
def IsWeight (a : Float) : Prop := 0.0 ≤ a ∧ value a ≠ ⊤

theorem isWeight_of_isProper {a : Float} (h : Weights.isProper a = true) : IsWeight a := by
  rw [Weights.isProper, Bool.and_eq_true, decide_eq_true_eq] at h
  exact ⟨h.2, (represents_value h.2).isFinite_iff.mp h.1⟩

/-- A double that is not negative equals zero if it stands for zero. -/
theorem beq_zero_of_value {a : Float} (hNonneg : 0.0 ≤ a) (hZero : value a = 0) :
    (a == 0.0) = true := by
  have hUnpacked : (0.0 : Float).toModel.unpack = .zero .positive := rfl
  show a.toModel.unpack.beq (0.0 : Float).toModel.unpack = true
  rw [hUnpacked]
  unfold value at hZero
  obtain ⟨sign, hUnpack⟩ | ⟨m, e, hPos, hUnpack⟩ | hUnpack := (zero_le_iff.mp hNonneg).eq_or
  · rw [hUnpack]
    rfl
  · rw [hUnpack, size_finite] at hZero
    exact absurd hZero (magnitude_pos e hPos).ne'
  · rw [hUnpack, size_infinity] at hZero
    exact absurd hZero ENNReal.top_ne_zero

theorem value_le_roundedSum {a : Float} {weights : List Float} (h : a ∈ weights) :
    value a ≤ roundedSum (weights.map value) := by
  have hSingle : roundedSum [value a] = value a := by
    show rounded (0 + value a) = value a
    rw [zero_add]
    exact rounded_size (isDouble a)
  rw [← hSingle]
  exact roundedSum_le_of_sublist (List.singleton_sublist.mpr (List.mem_map_of_mem h))

/-- Proper weights are rescaled to weights of at most one. -/
theorem normalizeWeights_bounds {weights : List Float} (h : ∀ a ∈ weights, IsWeight a) :
    ∀ b ∈ normalizeWeights weights, 0.0 ≤ b ∧ value b ≤ 1 := by
  have hOne : Represents 1.0 1 := represents_one
  have hSum : Represents (total weights) (roundedSum (weights.map value)) :=
    represents_total fun a ha => (h a ha).1
  have hRounded : rounded 1 = 1 := represents_one.rounded_eq
  intro b hb
  unfold normalizeWeights at hb
  dsimp only at hb
  by_cases hEmpty : weights.isEmpty = true
  · rw [if_pos hEmpty] at hb
    cases hb
  rw [if_neg hEmpty] at hb
  by_cases hZero : (total weights == 0.0) = true
  · -- nothing to rescale by: equal shares of one
    rw [if_pos hZero] at hb
    obtain rfl := List.eq_of_mem_replicate hb
    have hLength : 1 ≤ weights.length := by
      rw [Nat.one_le_iff_ne_zero, Ne, List.length_eq_zero_iff, ← List.isEmpty_iff]
      exact hEmpty
    have hCount := rounded_natCast_pos hLength
    have hShare := hOne.div (represents_ofNat weights.length) (one_pos.trans_le hCount).ne'
      (.inl ENNReal.one_ne_top)
    refine ⟨hShare.zero_le, ?_⟩
    calc value _ = rounded (1 / rounded weights.length) := hShare.value_eq
      _ ≤ rounded 1 := rounded_mono (ENNReal.div_le_of_le_mul (by rwa [one_mul]))
      _ = 1 := hRounded
  · -- a share of the sum, which is no smaller than the weight
    rw [if_neg hZero] at hb
    obtain ⟨a, ha, rfl⟩ := List.mem_map.mp hb
    have hSumNonzero : roundedSum (weights.map value) ≠ 0 := fun hNone =>
      hZero (beq_zero_of_value hSum.zero_le (hSum.value_eq.trans hNone))
    have hShare := (represents_value (h a ha).1).div hSum hSumNonzero (.inl (h a ha).2)
    refine ⟨hShare.zero_le, ?_⟩
    calc value (a / total weights)
        = rounded (value a / roundedSum (weights.map value)) := hShare.value_eq
      _ ≤ rounded 1 := by
        refine rounded_mono (ENNReal.div_le_of_le_mul ?_)
        rw [one_mul]
        exact value_le_roundedSum ha
      _ = 1 := hRounded

theorem rescaledWeights_bounds {weights : Weights} (h : weights.validate = .ok ())
    (rules : List Rule) : ∀ b ∈ rescaledWeights weights rules, 0.0 ≤ b ∧ value b ≤ 1 := by
  refine normalizeWeights_bounds fun a ha => ?_
  obtain ⟨rule, -, rfl⟩ := List.mem_map.mp ha
  exact isWeight_of_isProper (Weights.isProper_of_validate h rule)

/-! ## Weighted scores -/

/-- A category with a score between zero and a hundred and a weight between zero and one. -/
structure CategoryScore.IsBounded (category : CategoryScore) : Prop where
  zero_le_score : 0.0 ≤ category.score
  score_le : value category.score ≤ 100
  zero_le_weight : 0.0 ≤ category.weight
  weight_le : value category.weight ≤ 1

/-- The same category with a score that is no higher. -/
def CategoryScore.NoHigher (a b : CategoryScore) : Prop :=
  a.name = b.name ∧ a.weight = b.weight ∧ a.score ≤ b.score

/-- The number that the weighted score of a category stands for. -/
noncomputable def CategoryScore.weightedValue (category : CategoryScore) : ℝ≥0∞ :=
  rounded (value category.score * value category.weight)

theorem CategoryScore.IsBounded.represents {category : CategoryScore} (h : category.IsBounded) :
    Represents (category.score * category.weight) category.weightedValue := by
  have hScore : value category.score ≠ ⊤ := ne_top_of_le_ne_top (by norm_num) h.score_le
  have hWeight : value category.weight ≠ ⊤ := ne_top_of_le_ne_top ENNReal.one_ne_top h.weight_le
  exact (represents_value h.zero_le_score).mul (represents_value h.zero_le_weight) hWeight
    (.inl hScore)

/-- The overall score of categories stands for the sum of the weighted scores. -/
theorem represents_overallScore {categories : List CategoryScore} (hSome : categories ≠ [])
    (h : ∀ category ∈ categories, category.IsBounded) :
    Represents (overallScore categories)
      (round2Value (roundedSum (categories.map CategoryScore.weightedValue))) := by
  have hTerms : (categories.map fun category => category.score * category.weight).map value =
      categories.map CategoryScore.weightedValue := by
    rw [List.map_map]
    exact List.map_congr_left fun category hMem => (h category hMem).represents.value_eq
  have hSum : Represents
      (total (categories.map fun category => category.score * category.weight))
      (roundedSum (categories.map CategoryScore.weightedValue)) := by
    rw [← hTerms]
    refine represents_total fun a ha => ?_
    obtain ⟨category, hMem, rfl⟩ := List.mem_map.mp ha
    exact (h category hMem).represents.zero_le
  unfold overallScore
  rw [if_neg (mt List.isEmpty_iff.mp hSome)]
  exact represents_round2 hSum

/-- Lower scores with the same weights do not make a higher overall score. -/
theorem overallScore_le {categories others : List CategoryScore}
    (h : List.Forall₂ CategoryScore.NoHigher categories others)
    (hCategories : ∀ category ∈ categories, category.IsBounded)
    (hOthers : ∀ category ∈ others, category.IsBounded) :
    overallScore categories ≤ overallScore others := by
  by_cases hNone : categories = []
  · subst hNone
    obtain rfl := List.forall₂_nil_left_iff.mp h
    decide +kernel
  have hSome : others ≠ [] := by
    rintro rfl
    exact hNone (List.forall₂_nil_right_iff.mp h)
  rw [(represents_overallScore hNone hCategories).le_iff (represents_overallScore hSome hOthers)]
  refine round2Value_mono (roundedSum_mono ?_)
  rw [List.forall₂_map_left_iff, List.forall₂_map_right_iff]
  -- both lists are bounded, item by item
  have hBoth := (List.forall₂_and_left _ _).mpr ⟨hCategories, h⟩
  have hAll := (List.forall₂_and_left _ _).mpr ⟨hOthers, hBoth.flip⟩
  refine hAll.flip.imp ?_
  rintro category other ⟨hOther, hCategory, -, hWeight, hScore⟩
  have hOrder := ((represents_value hCategory.zero_le_score).le_iff
    (represents_value hOther.zero_le_score)).mp hScore
  unfold CategoryScore.weightedValue
  rw [hWeight]
  exact rounded_mono (by gcongr)

/-- Scores between zero and a hundred make bounded categories. -/
theorem isBounded_of_mem_categoriesOf {weights : Weights} (hWeights : weights.validate = .ok ())
    {scores : List (Rule × Float)}
    (hScores : ∀ entry ∈ scores, 0.0 ≤ entry.2 ∧ value entry.2 ≤ 100) :
    ∀ category ∈ categoriesOf weights scores, category.IsBounded := by
  intro category hMem
  obtain ⟨entry, hEntry, weight, hWeight, rfl⟩ := exists_of_mem_categoriesOf hMem
  obtain ⟨hNonneg, hAtMost⟩ := hScores entry hEntry
  obtain ⟨hWeightNonneg, hWeightAtMost⟩ := rescaledWeights_bounds hWeights _ weight hWeight
  exact ⟨hNonneg, hAtMost, hWeightNonneg, hWeightAtMost⟩

end DebtGauge
