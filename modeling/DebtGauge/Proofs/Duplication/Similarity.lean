import DebtGauge.Proofs.Duplication.Duplicates
import DebtGauge.Proofs.Text.Edits

/-!
# Near duplicates by their edit distance

Two blocks are near duplicates if the edit distance is at most three twentieths of the length of
the longer one. The threshold for doubles lies a little below seventeen twentieths, and both the
quotient and the difference are rounded; but for texts of less than `2 ^ 32` characters, quotients
of lengths are too far apart for that to matter. Nor do the short cuts matter: blocks of very
different lengths are far apart, and equal blocks have no distance.

Main definitions:

* `CodeBlock.plainSimilarity` — the similarity without short cuts.

Main results:

* `CodeBlock.threshold_le_one_sub_iff` — the rounded formula against whole numbers;
* `CodeBlock.threshold_le_similarity_iff_edits` — which blocks are near duplicates.
-/

namespace DebtGauge.CodeBlock

open Double
open scoped ENNReal

/-- The similarity of two blocks without short cuts: one less the edit distance per character of
the longer one. -/
def plainSimilarity (a b : CodeBlock) : Float :=
  let longest := max a.length b.length
  if longest = 0 then 1.0
  else 1.0 - Float.ofNat (Text.editDistance a.tokens.toList b.tokens.toList) / Float.ofNat longest

/-! ## The threshold -/

/-- The threshold in units of `2 ^ -53`. -/
def thresholdUnits : ℕ := 7656119366529843

/-- What is missing from the threshold to one, in units of `2 ^ -53`. -/
def marginUnits : ℕ := 1351079888211149

theorem represents_threshold : Represents threshold (magnitude thresholdUnits (-53)) where
  zero_le := by decide +kernel
  value_eq := rfl

theorem represents_full : Represents 1.0 1 := represents_one

variable {k d l : ℕ}

/-- So many units of `2 ^ -53` as a fraction. -/
theorem magnitude_eq_div (k : ℕ) : magnitude k (-53) = ENNReal.ofReal (k / 2 ^ 53) := by
  rw [magnitude, zpow_neg, div_eq_mul_inv]
  norm_cast

theorem natCast_div (hPos : 0 < l) : (d : ℝ≥0∞) / l = ENNReal.ofReal (d / l) := by
  rw [ENNReal.ofReal_div_of_pos (by exact_mod_cast hPos), ENNReal.ofReal_natCast,
    ENNReal.ofReal_natCast]

theorem div_le_magnitude (hPos : 0 < l) (h : d * 2 ^ 53 ≤ k * l) :
    (d : ℝ≥0∞) / l ≤ magnitude k (-53) := by
  rw [natCast_div hPos, magnitude_eq_div]
  refine ENNReal.ofReal_le_ofReal ?_
  rw [div_le_div_iff₀ (by exact_mod_cast hPos) (by positivity)]
  exact_mod_cast h

theorem magnitude_le_div (hPos : 0 < l) (h : k * l ≤ d * 2 ^ 53) :
    magnitude k (-53) ≤ (d : ℝ≥0∞) / l := by
  rw [natCast_div hPos, magnitude_eq_div]
  refine ENNReal.ofReal_le_ofReal ?_
  rw [div_le_div_iff₀ (by positivity) (by exact_mod_cast hPos)]
  exact_mod_cast h

theorem one_sub_magnitude (hk : k ≤ 2 ^ 53) :
    1 - magnitude k (-53) = magnitude (2 ^ 53 - k) (-53) := by
  rw [magnitude_eq_div, magnitude_eq_div, ← ENNReal.ofReal_one,
    ← ENNReal.ofReal_sub _ (by positivity), Nat.cast_sub hk]
  congr 1
  push_cast
  field_simp
  norm_num

theorem rounded_units (hk : k < 2 ^ 53) : rounded (magnitude k (-53)) = magnitude k (-53) :=
  rounded_magnitude hk (by decide) (by decide)

/-- The quotient of two counts is rounded once, as small counts are doubles themselves. -/
theorem represents_ratio (hPos : 0 < l) (hl : l < 2 ^ 32) (hd : d ≤ l) :
    Represents (Float.ofNat d / Float.ofNat l) (rounded (d / l)) := by
  -- both counts are below `2 ^ 53`, so that only the quotient is rounded
  have hDividend := represents_ofNat d
  have hDivisor := represents_ofNat l
  rw [rounded_natCast (by omega)] at hDividend hDivisor
  exact hDividend.div hDivisor (by exact_mod_cast hPos.ne') (.inl (ENNReal.natCast_ne_top d))

/-- The rounded formula decides like whole numbers do. -/
theorem threshold_le_one_sub_iff (hPos : 0 < l) (hl : l < 2 ^ 32) (hd : d ≤ l) :
    threshold ≤ 1.0 - Float.ofNat d / Float.ofNat l ↔ 20 * d ≤ 3 * l := by
  have hRatio := represents_ratio hPos hl hd
  constructor
  · -- beyond three twentieths, the quotient is at least one unit more than the margin
    contrapose!
    intro hFar hThreshold
    -- were the difference negative, it could not reach the threshold
    have hNonneg := zero_le_of_le represents_threshold.zero_le hThreshold
    have hDifference := (represents_full.sub hRatio ENNReal.one_ne_top).resolve_right
      fun hNegative => hNegative.1 hNonneg
    rw [represents_threshold.le_iff hDifference] at hThreshold
    have hQuotient : magnitude (marginUnits + 1) (-53) ≤ rounded (d / l) := by
      rw [← rounded_units (by decide)]
      refine rounded_mono (magnitude_le_div hPos ?_)
      unfold marginUnits
      omega
    have hBelow : rounded (1 - rounded (d / l)) ≤ magnitude (thresholdUnits - 1) (-53) := by
      rw [← rounded_units (k := thresholdUnits - 1) (by decide)]
      refine rounded_mono ((tsub_le_tsub_left hQuotient 1).trans_eq ?_)
      exact one_sub_magnitude (by decide)
    exact absurd (magnitude_le_magnitude_iff.mp (hThreshold.trans hBelow)) (by decide)
  · -- up to three twentieths, the quotient is at most the margin
    intro hNear
    have hQuotient : rounded (d / l) ≤ magnitude marginUnits (-53) := by
      rw [← rounded_units (by decide)]
      refine rounded_mono (div_le_magnitude hPos ?_)
      unfold marginUnits
      omega
    have hAbove : magnitude thresholdUnits (-53) ≤ 1 - rounded (d / l) :=
      (one_sub_magnitude (k := marginUnits) (by decide)).symm.trans_le
        (tsub_le_tsub_left hQuotient 1)
    have hUnits : 0 < magnitude thresholdUnits (-53) := magnitude_pos _ (by decide)
    have hDifference := (represents_full.sub hRatio ENNReal.one_ne_top).resolve_right
      fun hNegative => (hUnits.trans_le hAbove).ne' (tsub_eq_zero_of_le hNegative.2)
    rw [represents_threshold.le_iff hDifference, ← rounded_units (k := thresholdUnits) (by decide)]
    exact rounded_mono hAbove

/-- Where the short cut for lengths is taken, the lengths differ by more than three twentieths. -/
theorem lt_of_ratio_lt_threshold (hPos : 0 < l) (hl : l < 2 ^ 32) (hd : d ≤ l)
    (h : Float.ofNat d / Float.ofNat l < threshold) :
    20 * d < 17 * l ∧ ¬ threshold ≤ Float.ofNat d / Float.ofNat l := by
  have hRatio := represents_ratio hPos hl hd
  rw [hRatio.lt_iff represents_threshold] at h
  refine ⟨?_, fun hThreshold => ?_⟩
  · by_contra hNear
    have hAbove : magnitude thresholdUnits (-53) ≤ rounded (d / l) := by
      rw [← rounded_units (by decide)]
      refine rounded_mono (magnitude_le_div hPos ?_)
      unfold thresholdUnits
      omega
    exact h.not_ge hAbove
  · exact h.not_ge ((represents_threshold.le_iff hRatio).mp hThreshold)

/-- The formula on rational numbers; with nothing to compare, the quotient is zero. -/
theorem exact_le_iff (hd : d ≤ l) : (0.85 : ℚ) ≤ 1 - (d : ℚ) / l ↔ 20 * d ≤ 3 * l := by
  obtain rfl | hPos := Nat.eq_zero_or_pos l
  · rw [Nat.cast_zero, div_zero]
    exact iff_of_true (by norm_num) (by omega)
  · have hReal : (0 : ℚ) < l := by exact_mod_cast hPos
    have hTwentieths : 20 * d ≤ 3 * l ↔ (20 : ℚ) * d ≤ 3 * l := by norm_cast
    rw [le_sub_comm, div_le_iff₀ hReal, hTwentieths]
    constructor <;> intro h <;> linarith

/-! ## Blocks -/

variable {a b : CodeBlock}

theorem editDistance_le_longest (a b : CodeBlock) :
    Text.editDistance a.tokens.toList b.tokens.toList ≤ max a.length b.length :=
  Text.editDistance_le_max a.tokens.toList b.tokens.toList

theorem threshold_le_plainSimilarity_iff (ha : a.length < 2 ^ 32) (hb : b.length < 2 ^ 32) :
    threshold ≤ a.plainSimilarity b ↔
      20 * Text.editDistance a.tokens.toList b.tokens.toList ≤ 3 * max a.length b.length := by
  have hMost := editDistance_le_longest a b
  unfold plainSimilarity
  by_cases hEmpty : max a.length b.length = 0
  · rw [if_pos hEmpty]
    exact iff_of_true (by decide +kernel) (by omega)
  · rw [if_neg hEmpty]
    exact threshold_le_one_sub_iff (by omega) (by omega) hMost

theorem threshold_le_similarity_iff (ha : a.length < 2 ^ 32) (hb : b.length < 2 ^ 32) :
    threshold ≤ a.similarity b ↔
      20 * Text.editDistance a.tokens.toList b.tokens.toList ≤ 3 * max a.length b.length := by
  have hMost := editDistance_le_longest a b
  have hLeast : max a.length b.length - min a.length b.length ≤
      Text.editDistance a.tokens.toList b.tokens.toList :=
    Text.length_sub_le_editDistance a.tokens.toList b.tokens.toList
  unfold similarity
  by_cases hEmpty : max a.length b.length = 0
  · rw [if_pos hEmpty]
    exact iff_of_true (by decide +kernel) (by omega)
  rw [if_neg hEmpty]
  dsimp only
  by_cases hRatio : Float.ofNat (min a.length b.length) / Float.ofNat (max a.length b.length) <
      threshold
  · -- the lengths alone are too far apart
    obtain ⟨hFar, hBelow⟩ := lt_of_ratio_lt_threshold (by omega) (by omega) (by omega) hRatio
    rw [if_pos hRatio]
    exact iff_of_false hBelow (by omega)
  rw [if_neg hRatio]
  by_cases hEqual : a.tokens = b.tokens
  · -- equal blocks have no distance
    rw [if_pos hEqual, hEqual, Text.editDistance_self]
    exact iff_of_true (by decide +kernel) (by omega)
  · -- no short cut is taken
    rw [if_neg hEqual]
    exact threshold_le_one_sub_iff (by omega) (by omega) hMost

/-- Near duplicates are the blocks whose edit distance is at most three twentieths of the length
of the longer one, and it does not matter which of the two comes first. Without the short cuts
the rounded formula decides in the same way, and so does the formula on rational numbers with
the threshold as it is written. -/
theorem threshold_le_similarity_iff_edits {a b : CodeBlock} (ha : a.length < 2 ^ 32)
    (hb : b.length < 2 ^ 32) :
    ∃ distance, IsLeast {n | Text.EditedIn n a.tokens.toList b.tokens.toList} distance ∧
      (threshold ≤ a.similarity b ↔ 20 * distance ≤ 3 * max a.length b.length) ∧
      (threshold ≤ a.similarity b ↔ threshold ≤ a.plainSimilarity b) ∧
      (threshold ≤ a.similarity b ↔
        (0.85 : ℚ) ≤ 1 - (distance : ℚ) / (max a.length b.length : ℕ)) ∧
      (threshold ≤ a.similarity b ↔ threshold ≤ b.similarity a) := by
  refine ⟨Text.editDistance a.tokens.toList b.tokens.toList, Text.isLeast_editDistance _ _,
    threshold_le_similarity_iff ha hb, ?_, ?_, ?_⟩
  · rw [threshold_le_similarity_iff ha hb, threshold_le_plainSimilarity_iff ha hb]
  · rw [threshold_le_similarity_iff ha hb]
    exact (exact_le_iff (editDistance_le_longest a b)).symm
  · rw [similarity_comm]

/-- Seventeen of twenty equal characters are just enough, for the lengths as for the distance. -/
theorem threshold_le_similarity_iff_edits_boundary :
    threshold ≤ (DuplicateDetector.uniformBlock "a.ts" 17).similarity
      (DuplicateDetector.uniformBlock "b.ts" 20) := by
  obtain ⟨distance, hLeast, hNear, -⟩ := threshold_le_similarity_iff_edits
    (a := DuplicateDetector.uniformBlock "a.ts" 17)
    (b := DuplicateDetector.uniformBlock "b.ts" 20) (by decide +kernel) (by decide +kernel)
  rw [hNear, hLeast.unique (Text.isLeast_editDistance _ _)]
  decide +kernel

end DebtGauge.CodeBlock
