import DebtGauge.Proofs.Score.Counts
import DebtGauge.Proofs.Score.Normalization

/-!
# The overall score as an average

The weights are rescaled with errors, and products and sums have errors of their own, so that the
sum of the weighted scores can leave the range of the scores by a little. The scores have two
decimals each, and the sum is rounded to two decimals too: that takes the little away again.

Main definitions and results:

* `HasTwoDecimals`, `hasTwoDecimals_score` — scores of rules have two decimals;
* `near_weightedSum` — the sum of the weighted scores, up to errors of rounding;
* `round2Value_le_hundredth`, `hundredth_le_round2Value` — what is close to a number with two
  decimals is rounded back to it;
* `overall_is_average` — the overall score is in the range of the scores.
-/

namespace DebtGauge

open Double
open scoped ENNReal

/-! ## Numbers with two decimals -/

/-- A score between zero and a hundred that has two decimals. -/
def HasTwoDecimals (a : Float) : Prop := ∃ k ≤ 10000, Represents a (hundredth k)

/-- What is rounded to two decimals is a number of hundredths. -/
theorem exists_round2Value_eq_hundredth {x : ℝ≥0∞} (h : x ≤ 100) :
    ∃ k ≤ 10000, round2Value x = hundredth k := by
  have hBound : rounded (x * 100) ≤ ((10000 : ℕ) : ℝ≥0∞) := by
    rw [← rounded_natCast (show 10000 < 2 ^ 53 by norm_num)]
    refine rounded_mono ?_
    calc x * 100 ≤ 100 * 100 := by gcongr
      _ = ((10000 : ℕ) : ℝ≥0∞) := by norm_num
  have hFinite : rounded (x * 100) ≠ ⊤ := ne_top_of_le_ne_top (ENNReal.natCast_ne_top _) hBound
  have hWhole := wholeHalfUp_mono hBound
  rw [wholeHalfUp_natCast, wholeHalfUp, if_neg hFinite, Nat.cast_le] at hWhole
  refine ⟨_, hWhole, ?_⟩
  unfold round2Value hundredth
  rw [wholeHalfUp, if_neg hFinite, rounded_natCast (by omega)]

theorem hundredth_le {k : ℕ} (hk : k ≤ 10000) : hundredth k ≤ 100 := by
  refine represents_hundred.rounded_eq ▸ rounded_mono (ENNReal.div_le_of_le_mul ?_)
  calc (k : ℝ≥0∞) ≤ ((10000 : ℕ) : ℝ≥0∞) := by exact_mod_cast hk
    _ = 100 * 100 := by norm_num

theorem hundredth_ne_top {k : ℕ} (hk : k ≤ 10000) : hundredth k ≠ ⊤ :=
  ne_top_of_le_ne_top (by norm_num) (hundredth_le hk)

theorem toReal_hundredth_le {k : ℕ} (hk : k ≤ 10000) : (hundredth k).toReal ≤ 100 :=
  ENNReal.toReal_le_of_le_ofReal (by norm_num) (by simpa using hundredth_le hk)

/-- Numbers with two decimals are hardly rounded. -/
theorem hundredth_bounds {k : ℕ} (hk : k ≤ 10000) :
    k ≤ (hundredth k).toReal * 100 + 1 / 100 ∧ (hundredth k).toReal * 100 ≤ k + 1 / 100 := by
  have hBound : (k : ℝ) ≤ 10000 := by exact_mod_cast hk
  have hReal := toReal_hundredth_le hk
  have hUnderflow := underflow_le_roundoff.trans roundoff_le
  obtain ⟨hLeft, hRight⟩ := (near_rounded (hundredth_ne_top hk)).mono roundoff_le hUnderflow
    ENNReal.toReal_nonneg ENNReal.toReal_nonneg
  rw [ENNReal.toReal_div, ENNReal.toReal_natCast, ENNReal.toReal_ofNat] at hLeft hRight
  rw [← hundredth] at hLeft hRight
  constructor <;> linarith

/-- A quarter more or less than a whole number is a double, and it is rounded to that number. -/
theorem wholeHalfUp_quarters {m k : ℕ} (hm : m < 2 ^ 53) (h : (m + 2) / 4 = k) :
    wholeHalfUp (rounded (magnitude m (-2))) = k := by
  rw [rounded_magnitude hm (by decide) (by decide), wholeHalfUp_magnitude m (by decide), ← h]
  rfl

theorem magnitude_quarters (m : ℕ) : magnitude m (-2) = ENNReal.ofReal (m / 4) := by
  rw [magnitude]
  norm_num [div_eq_mul_inv]

theorem rounded_div_hundred_mono {x y : ℝ≥0∞} (h : x ≤ y) :
    rounded (rounded x / 100) ≤ rounded (rounded y / 100) :=
  rounded_mono (ENNReal.div_le_div_right (rounded_mono h) _)

theorem hundredth_eq {k : ℕ} (hk : k ≤ 10000) : hundredth k = rounded (rounded k / 100) := by
  rw [hundredth, rounded_natCast (by omega)]

/-- What is above a number with two decimals by a little is rounded back to it. -/
theorem round2Value_le_hundredth {k : ℕ} (hk : k ≤ 10000) {x : ℝ≥0∞} (hx : x ≠ ⊤)
    (h : x.toReal ≤ (hundredth k).toReal + 1 / 1000) : round2Value x ≤ hundredth k := by
  obtain ⟨-, hAbove⟩ := hundredth_bounds hk
  -- a quarter more than the hundredths is a double, and that is rounded down
  have hScaled : x * 100 ≤ magnitude (4 * k + 1) (-2) := by
    have hProduct : x * 100 ≠ ⊤ := ENNReal.mul_ne_top hx (by norm_num)
    rw [magnitude_quarters, ENNReal.le_ofReal_iff_toReal_le hProduct (by positivity),
      ENNReal.toReal_mul, ENNReal.toReal_ofNat]
    push_cast
    linarith
  rw [hundredth_eq hk, ← wholeHalfUp_quarters (by omega) (show (4 * k + 1 + 2) / 4 = k by omega)]
  exact rounded_div_hundred_mono (wholeHalfUp_mono (rounded_mono hScaled))

/-- What is below a number with two decimals by a little is rounded back to it. -/
theorem hundredth_le_round2Value {k : ℕ} (hk : k ≤ 10000) {x : ℝ≥0∞} (hx : x ≠ ⊤)
    (h : (hundredth k).toReal ≤ x.toReal + 1 / 1000) : hundredth k ≤ round2Value x := by
  obtain rfl | hPos := Nat.eq_zero_or_pos k
  · rw [hundredth, Nat.cast_zero, ENNReal.zero_div, rounded_zero]
    exact zero_le
  obtain ⟨hBelow, -⟩ := hundredth_bounds hk
  -- a quarter less than the hundredths is a double, and that is rounded up
  have hScaled : magnitude (4 * k - 1) (-2) ≤ x * 100 := by
    have hProduct : x * 100 ≠ ⊤ := ENNReal.mul_ne_top hx (by norm_num)
    rw [magnitude_quarters, ENNReal.ofReal_le_iff_le_toReal hProduct, ENNReal.toReal_mul,
      ENNReal.toReal_ofNat, Nat.cast_sub (by omega)]
    push_cast
    linarith
  rw [hundredth_eq hk, ← wholeHalfUp_quarters (by omega) (show (4 * k - 1 + 2) / 4 = k by omega)]
  exact rounded_div_hundred_mono (wholeHalfUp_mono (rounded_mono hScaled))

/-! ## The sum of the weighted scores -/

/-- The number that the weighted scores of categories add up to. -/
noncomputable def weightedSum (categories : List CategoryScore) : ℝ≥0∞ :=
  roundedSum (categories.map CategoryScore.weightedValue)

section Categories

variable {categories : List CategoryScore} (h : ∀ category ∈ categories, category.IsBounded)
include h

theorem weightedValue_le : ∀ category ∈ categories, category.weightedValue ≤ 100 := by
  intro category hMem
  refine represents_hundred.rounded_eq ▸ rounded_mono ?_
  calc value category.score * value category.weight ≤ 100 * 1 := by
        gcongr
        · exact (h category hMem).score_le
        · exact (h category hMem).weight_le
    _ = 100 := mul_one 100

theorem weightedSum_ne_top : weightedSum categories ≠ ⊤ :=
  roundedSum_ne_top (List.forall_mem_map.mpr (weightedValue_le h))

/-- Each product is off by one rounding, and so is each step of the sum. -/
theorem near_weightedSum (hLength : categories.length * roundoff ≤ 1) :
    Near ((categories.length + 1) * roundoff) (categories.length * underflow)
      (categories.map fun category => realOf category.score * realOf category.weight).sum
      (weightedSum categories).toReal := by
  have hRoundoff := roundoff_pos.le
  have hUnderflow := underflow_pos.le
  -- the products are off first, and then their sum
  have hProduct : ∀ category ∈ categories, Near roundoff underflow
      (realOf category.score * realOf category.weight) category.weightedValue.toReal := by
    intro category hMem
    have hFinite := ne_top_of_le_ne_top (by norm_num) (weightedValue_le h category hMem)
    have hNear := near_rounded hFinite
    rwa [ENNReal.toReal_mul] at hNear
  have hProducts := Near.sum hProduct
  have hDoubles : ∀ x ∈ categories.map CategoryScore.weightedValue, rounded x = x :=
    List.forall_mem_map.mpr fun category _ => rounded_rounded _
  have hSum := near_roundedSum hDoubles (by rwa [List.length_map]) (weightedSum_ne_top h)
  rw [List.length_map, List.map_map] at hSum
  have hBoth := hProducts.trans hSum
    (List.sum_nonneg (List.forall_mem_map.mpr fun category _ =>
      mul_nonneg (realOf_nonneg _) (realOf_nonneg _)))
    ENNReal.toReal_nonneg ⟨hRoundoff, roundoff_le_one⟩
    ⟨by positivity, hLength⟩ (by positivity) le_rfl
  rw [add_zero, add_comm roundoff] at hBoth
  rw [add_mul, one_mul]
  exact hBoth

end Categories

/-- Few weights have errors far below the last decimal of a score. -/
theorem few_roundoffs_le {n : ℕ} (hn : n ≤ 5) : (n + 1) * roundoff ≤ 1 / 10 ^ 6 := by
  have hReal : (n : ℝ) + 1 ≤ 6 := by exact_mod_cast Nat.succ_le_succ hn
  have hSmall := roundoff_le
  have hRoundoff := roundoff_pos.le
  calc ((n : ℝ) + 1) * roundoff ≤ 6 * (1 / 10 ^ 7) := by gcongr
    _ ≤ 1 / 10 ^ 6 := by norm_num

/-- A sum of weighted scores is close to the range of the scores if the weights are close to one. -/
theorem close_to_range {lowest highest weights products sum : ℝ} (hHighest : highest ≤ 100)
    (hLowest : 0 ≤ lowest) (hOrder : lowest ≤ highest)
    (hWeights : Near (1 / 10 ^ 6) (1 / 10 ^ 6) 1 weights)
    (hSum : Near (1 / 10 ^ 6) (1 / 10 ^ 6) products sum)
    (hBelow : lowest * weights ≤ products) (hAbove : products ≤ highest * weights) :
    lowest ≤ sum + 1 / 1000 ∧ sum ≤ highest + 1 / 1000 := by
  obtain ⟨hWeightsLeft, hWeightsRight⟩ := hWeights
  obtain ⟨hSumLeft, hSumRight⟩ := hSum
  have hLeast : 1 - 2 / 10 ^ 6 ≤ weights := by linarith
  have hMost : weights ≤ 1 + 3 / 10 ^ 6 := by linarith
  have hLow : lowest * (1 - 2 / 10 ^ 6) ≤ lowest * weights := by gcongr
  have hHigh : highest * weights ≤ highest * (1 + 3 / 10 ^ 6) := by
    have hNonneg : 0 ≤ highest := hLowest.trans hOrder
    gcongr
  constructor <;> linarith

/-- With scores in a range, the sum of their products with the weights is in that range, times the
sum of the weights. -/
theorem products_bounds {categories : List CategoryScore} {lowest highest : ℝ}
    (h : ∀ category ∈ categories,
      lowest ≤ realOf category.score ∧ realOf category.score ≤ highest) :
    lowest * (categories.map fun category => realOf category.weight).sum ≤
        (categories.map fun category => realOf category.score * realOf category.weight).sum ∧
      (categories.map fun category => realOf category.score * realOf category.weight).sum ≤
        highest * (categories.map fun category => realOf category.weight).sum := by
  rw [← List.sum_map_mul_left, ← List.sum_map_mul_left]
  constructor
  · refine List.sum_le_sum fun category hMem => ?_
    exact mul_le_mul_of_nonneg_right (h category hMem).1 (realOf_nonneg _)
  · refine List.sum_le_sum fun category hMem => ?_
    exact mul_le_mul_of_nonneg_right (h category hMem).2 (realOf_nonneg _)

/-- With few weights that add up to one, the overall score is in the range of the scores. -/
theorem overallScore_in_range {categories : List CategoryScore} (hSome : categories ≠ [])
    (hBounded : ∀ category ∈ categories, category.IsBounded) (hFew : categories.length ≤ 5)
    (hWeights : Near (1 / 10 ^ 6) (1 / 10 ^ 6) 1
      (categories.map fun category => realOf category.weight).sum)
    {k k' : ℕ} (hk : k ≤ 10000) (hk' : k' ≤ 10000)
    (hRange : ∀ category ∈ categories,
      hundredth k ≤ value category.score ∧ value category.score ≤ hundredth k') :
    hundredth k ≤ value (overallScore categories) ∧
      value (overallScore categories) ≤ hundredth k' := by
  have hRoundoff := roundoff_pos
  have hRelative := few_roundoffs_le hFew
  have hAbsolute := mul_underflow_le (show categories.length * roundoff ≤ 1 / 10 ^ 6 by linarith)
  have hReal : ∀ category ∈ categories, (hundredth k).toReal ≤ realOf category.score ∧
      realOf category.score ≤ (hundredth k').toReal := by
    intro category hMem
    obtain ⟨hBelow, hAbove⟩ := hRange category hMem
    have hFinite := ne_top_of_le_ne_top (hundredth_ne_top hk') hAbove
    exact ⟨ENNReal.toReal_mono hFinite hBelow, ENNReal.toReal_mono (hundredth_ne_top hk') hAbove⟩
  have hOrder : (hundredth k).toReal ≤ (hundredth k').toReal := by
    obtain ⟨category, rest, rfl⟩ := List.exists_cons_of_ne_nil hSome
    obtain ⟨hBelow, hAbove⟩ := hReal category (List.mem_cons_self ..)
    exact hBelow.trans hAbove
  have hProducts : 0 ≤
      (categories.map fun category => realOf category.score * realOf category.weight).sum :=
    List.sum_nonneg (List.forall_mem_map.mpr fun category _ =>
      mul_nonneg (realOf_nonneg _) (realOf_nonneg _))
  have hSum := (near_weightedSum hBounded (by linarith)).mono hRelative hAbsolute hProducts
    ENNReal.toReal_nonneg
  obtain ⟨hLow, hHigh⟩ := products_bounds hReal
  -- the errors are far below the last decimal, so that rounding to two of them takes them away
  obtain ⟨hBelow, hAbove⟩ := close_to_range (toReal_hundredth_le hk') ENNReal.toReal_nonneg hOrder
    hWeights hSum hLow hHigh
  rw [(represents_overallScore hSome hBounded).value_eq]
  exact ⟨hundredth_le_round2Value hk (weightedSum_ne_top hBounded) hBelow,
    round2Value_le_hundredth hk' (weightedSum_ne_top hBounded) hAbove⟩

/-! ## Aggregations -/

theorem map_weight_categoriesOf (weights : Weights) (scores : List (Rule × Float)) :
    (categoriesOf weights scores).map (·.weight) =
      rescaledWeights weights (scores.map (·.1)) := by
  unfold categoriesOf
  rw [List.map_map]
  refine (List.map_congr_left fun _ _ => rfl).trans (List.map_snd_zip ?_)
  rw [length_rescaledWeights, List.length_map]

theorem length_categoriesOf (weights : Weights) (scores : List (Rule × Float)) :
    (categoriesOf weights scores).length = scores.length :=
  (forall₂_categoriesOf weights scores).length_eq.symm

/-- Distinct rules are few. -/
theorem length_le_of_distinct {rules : List Rule} (h : rules.Nodup) : rules.length ≤ 5 :=
  (h.subperm fun rule _ => rule.mem_all).length_le

theorem hasTwoDecimals_score (rule : Rule) (totalFiles : Option ℕ) (findings : List Finding) :
    HasTwoDecimals (rule.score totalFiles findings) := by
  obtain ⟨x, hx, hScore⟩ := exists_represents_score rule totalFiles findings
  obtain ⟨k, hk, hEq⟩ := exists_round2Value_eq_hundredth hx
  exact ⟨k, hk, hEq ▸ hScore⟩

/-- What an aggregation makes if it succeeds. -/
theorem of_aggregate_ok {weights : Weights} {scores : List (Rule × Float)} {totals : ScoreTotals}
    {now : Instant} {score : Score} (h : aggregate weights scores totals now = .ok score) :
    ensureWeightSum (rescaledWeights weights (scores.map (·.1))) = .ok () ∧
      score.overall = overallScore (categoriesOf weights scores) ∧
      score.categories = categoriesOf weights scores := by
  rw [aggregate_eq] at h
  cases hSum : ensureWeightSum (rescaledWeights weights (scores.map (·.1))) with
  | error failure =>
    rw [hSum] at h
    cases h
  | ok =>
    rw [hSum] at h
    cases h
    exact ⟨rfl, rfl, rfl⟩

/-- The weights of an aggregation that succeeds add up to one, up to errors of rounding. -/
theorem near_sum_weights {weights : Weights} (hWeights : weights.validate = .ok ())
    {scores : List (Rule × Float)} (hSome : scores ≠ []) (hFew : scores.length ≤ 5)
    (hAccepted : ensureWeightSum (rescaledWeights weights (scores.map (·.1))) = .ok ()) :
    Near (1 / 10 ^ 6) (1 / 10 ^ 6) 1
      ((categoriesOf weights scores).map fun category => realOf category.weight).sum := by
  have hProper := isWeight_of_validate hWeights (scores.map (·.1))
  -- weights whose sum is infinite would have been refused
  have hFinite : value (total ((scores.map (·.1)).map weights.get)) ≠ ⊤ := by
    intro hOverflow
    obtain ⟨sum, -, hRefused⟩ := ensureWeightSum_of_overflow hProper hOverflow
    cases hAccepted.symm.trans hRefused
  have hLength : ((scores.map (·.1)).map weights.get).length ≤ 5 := by
    rwa [List.length_map, List.length_map]
  have hRoundoff := roundoff_pos
  have hRelative := few_roundoffs_le hLength
  have hRoundoffs : ((scores.map (·.1)).map weights.get).length * roundoff ≤ 1 / 10 ^ 6 := by
    linarith
  have hNonempty : (scores.map (·.1)).map weights.get ≠ [] := by
    rwa [Ne, List.map_eq_nil_iff, List.map_eq_nil_iff]
  have hNear := (near_sum_normalizeWeights hProper hNonempty (by linarith) hFinite).mono hRelative
    (mul_underflow_le hRoundoffs) zero_le_one (sum_map_realOf_nonneg _)
  rw [← rescaledWeights, ← map_weight_categoriesOf, List.map_map] at hNear
  exact hNear

/-- A list that is not empty has an entry with the lowest score, and one with the highest. -/
theorem exists_extremes {scores : List (Rule × Float)} (hSome : scores ≠ []) :
    ∃ lowest ∈ scores, ∃ highest ∈ scores, ∀ entry ∈ scores,
      value lowest.2 ≤ value entry.2 ∧ value entry.2 ≤ value highest.2 := by
  obtain ⟨first, hFirst⟩ := List.exists_mem_of_ne_nil scores hSome
  obtain ⟨lowest, hLowest, hLeast⟩ := Set.exists_min_image {entry | entry ∈ scores}
    (fun entry => value entry.2) (List.finite_toSet scores) ⟨first, hFirst⟩
  obtain ⟨highest, hHighest, hMost⟩ := Set.exists_max_image {entry | entry ∈ scores}
    (fun entry => value entry.2) (List.finite_toSet scores) ⟨first, hFirst⟩
  exact ⟨lowest, hLowest, highest, hHighest, fun entry hEntry =>
    ⟨hLeast entry hEntry, hMost entry hEntry⟩⟩

section Aggregate

variable {weights : Weights} (hWeights : weights.validate = .ok ()) {scores : List (Rule × Float)}
  (hScores : ∀ entry ∈ scores, HasTwoDecimals entry.2)
include hWeights hScores

theorem isBounded_of_hasTwoDecimals :
    ∀ category ∈ categoriesOf weights scores, category.IsBounded := by
  refine isBounded_of_mem_categoriesOf hWeights fun entry hEntry => ?_
  obtain ⟨k, hk, hRepresents⟩ := hScores entry hEntry
  exact ⟨hRepresents.zero_le, hRepresents.value_eq.trans_le (hundredth_le hk)⟩

/-- The overall score stands for a number between the extremes of those of the scores. -/
theorem exists_represents_overall (hSome : scores ≠ []) (hFew : scores.length ≤ 5)
    {totals : ScoreTotals} {now : Instant} {score : Score}
    (hScore : aggregate weights scores totals now = .ok score) {lowest highest : Rule × Float}
    (hLowest : lowest ∈ scores) (hHighest : highest ∈ scores)
    (hExtremes : ∀ entry ∈ scores,
      value lowest.2 ≤ value entry.2 ∧ value entry.2 ≤ value highest.2) :
    ∃ x, Represents score.overall x ∧ value lowest.2 ≤ x ∧ x ≤ value highest.2 := by
  obtain ⟨hAccepted, hOverall, -⟩ := of_aggregate_ok hScore
  have hBounded := isBounded_of_hasTwoDecimals hWeights hScores
  have hKept : categoriesOf weights scores ≠ [] := by
    rwa [Ne, ← List.length_eq_zero_iff, length_categoriesOf, List.length_eq_zero_iff]
  have hRepresents := represents_value (represents_overallScore hKept hBounded).zero_le
  obtain ⟨k, hk, hLow⟩ := hScores lowest hLowest
  obtain ⟨k', hk', hHigh⟩ := hScores highest hHighest
  rw [hOverall]
  refine ⟨_, hRepresents, ?_⟩
  -- the scores are in a range of hundredths, and so is their average
  rw [hLow.value_eq, hHigh.value_eq] at hExtremes ⊢
  refine overallScore_in_range hKept hBounded (by rwa [length_categoriesOf])
    (near_sum_weights hWeights hSome hFew hAccepted) hk hk' fun category hMem => ?_
  obtain ⟨entry, hEntry, weight, -, rfl⟩ := exists_of_mem_categoriesOf hMem
  exact hExtremes entry hEntry

end Aggregate

/-- The overall score of distinct rules is between the lowest and the highest of their scores. So
it lies between zero and a hundred, it is the score of all categories if they have the same, and
each weight lies between zero and one. -/
theorem overall_is_average {weights : Weights} (hWeights : weights.validate = .ok ())
    {scores : List (Rule × Float)} (hSome : scores ≠ []) (hDistinct : (scores.map (·.1)).Nodup)
    (hScores : ∀ entry ∈ scores, ∃ totalFiles findings,
      entry.2 = entry.1.score totalFiles findings)
    {totals : ScoreTotals} {now : Instant} {score : Score}
    (hScore : aggregate weights scores totals now = .ok score) :
    (∃ lowest ∈ scores, ∃ highest ∈ scores,
      (∀ entry ∈ scores, lowest.2 ≤ entry.2 ∧ entry.2 ≤ highest.2) ∧
      lowest.2 ≤ score.overall ∧ score.overall ≤ highest.2) ∧
    (0.0 ≤ score.overall ∧ score.overall ≤ 100.0) ∧
    (∀ same, (∀ entry ∈ scores, entry.2 = same) → (score.overall == same) = true) ∧
    ∀ category ∈ score.categories, 0.0 ≤ category.weight ∧ category.weight ≤ 1.0 := by
  have hOne : Represents 1.0 1 := represents_one
  have hFew : scores.length ≤ 5 := by
    simpa using length_le_of_distinct hDistinct
  have hDecimals : ∀ entry ∈ scores, HasTwoDecimals entry.2 := by
    intro entry hEntry
    obtain ⟨totalFiles, findings, hEq⟩ := hScores entry hEntry
    exact hEq ▸ hasTwoDecimals_score entry.1 totalFiles findings
  have hValues : ∀ entry ∈ scores, Represents entry.2 (value entry.2) := by
    intro entry hEntry
    obtain ⟨k, -, hRepresents⟩ := hDecimals entry hEntry
    exact represents_value hRepresents.zero_le
  obtain ⟨lowest, hLowest, highest, hHighest, hExtremes⟩ := exists_extremes hSome
  obtain ⟨x, hOverall, hBelow, hAbove⟩ := exists_represents_overall hWeights hDecimals hSome hFew
    hScore hLowest hHighest hExtremes
  have hLow := hValues lowest hLowest
  have hHigh := hValues highest hHighest
  refine ⟨⟨lowest, hLowest, highest, hHighest, fun entry hEntry => ⟨?_, ?_⟩,
    (hLow.le_iff hOverall).mpr hBelow, (hOverall.le_iff hHigh).mpr hAbove⟩,
    ⟨hOverall.zero_le, (hOverall.le_iff represents_hundred).mpr (hAbove.trans ?_)⟩,
    fun same hSame => ?_, fun category hMem => ?_⟩
  · exact (hLow.le_iff (hValues entry hEntry)).mpr (hExtremes entry hEntry).1
  · exact ((hValues entry hEntry).le_iff hHigh).mpr (hExtremes entry hEntry).2
  · obtain ⟨k, hk, hRepresents⟩ := hDecimals highest hHighest
    exact hRepresents.value_eq.trans_le (hundredth_le hk)
  · -- the lowest score and the highest are the same
    rw [hSame lowest hLowest] at hBelow hLow
    rw [hSame highest hHighest] at hAbove
    exact (hOverall.beq_iff hLow).mpr (le_antisymm hAbove hBelow)
  · rw [(of_aggregate_ok hScore).2.2] at hMem
    have hBounded := isBounded_of_hasTwoDecimals hWeights hDecimals category hMem
    have hWeight := represents_value hBounded.zero_le_weight
    exact ⟨hBounded.zero_le_weight, (hWeight.le_iff hOne).mpr hBounded.weight_le⟩

/-- The scores of two rules in a run over four files. -/
def twoScores : List (Rule × Float) :=
  [(.complexity, Rule.complexity.score (some 4) mixedFindings), (.size, Rule.size.score none [])]

/-- Scores of 57.5 and 100, with the weights of a project without settings. -/
theorem overall_is_average_twoScores :
    (twoScores.map (·.2)) = [57.5, 100.0] ∧
    ∃ score, aggregate Weights.standard twoScores ⟨4, 0, 3⟩ ⟨0, 0, 0⟩ = .ok score ∧
      (∃ lowest ∈ twoScores, ∃ highest ∈ twoScores,
        lowest.2 ≤ score.overall ∧ score.overall ≤ highest.2) ∧
      ∀ category ∈ score.categories, 0.0 ≤ category.weight ∧ category.weight ≤ 1.0 := by
  have hWeights : Weights.standard.validate = .ok () := rfl
  have hScores : ∀ entry ∈ twoScores, ∃ totalFiles findings,
      entry.2 = entry.1.score totalFiles findings := by
    intro entry hEntry
    obtain rfl | rfl : _ ∨ _ := by simpa [twoScores] using hEntry
    · exact ⟨some 4, mixedFindings, rfl⟩
    · exact ⟨none, [], rfl⟩
  have hOk : (aggregate Weights.standard twoScores ⟨4, 0, 3⟩ ⟨0, 0, 0⟩).isOk = true := by
    decide +kernel
  refine ⟨by decide +kernel, ?_⟩
  cases hScore : aggregate Weights.standard twoScores ⟨4, 0, 3⟩ ⟨0, 0, 0⟩ with
  | error failure =>
    rw [hScore] at hOk
    cases hOk
  | ok score =>
    obtain ⟨⟨lowest, hLowest, highest, hHighest, -, hBetween⟩, -, -, hCategories⟩ :=
      overall_is_average hWeights (by decide) (by decide) hScores hScore
    exact ⟨score, rfl, ⟨lowest, hLowest, highest, hHighest, hBetween⟩, hCategories⟩

end DebtGauge
