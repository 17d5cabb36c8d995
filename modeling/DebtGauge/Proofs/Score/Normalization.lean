import DebtGauge.Proofs.Double.Error
import DebtGauge.Proofs.Double.Identity
import DebtGauge.Proofs.Score.Overall

/-!
# Weights that are rescaled

Rescaled weights are shares of a sum, and each of them is rounded, as the sum is. The errors stay
far below the tolerance of the check that follows, however small the weights are, unless the sum
is too large for a double: an infinite sum leaves no shares, and the check refuses them.

Main definitions and results:

* `realOf` — the real number that a double stands for;
* `near_roundedSum` — a sum is off by one rounding for each of its terms;
* `near_sum_normalizeWeights` — rescaled weights add up to one, up to errors of rounding;
* `aggregate_ok_iff_isFinite` — an aggregation with proper weights succeeds just if the sum of the
  weights is finite.
-/

namespace DebtGauge

open Double
open scoped ENNReal

/-! ## Errors of sums -/

theorem near_foldl {xs : List ℝ≥0∞} (hDoubles : ∀ x ∈ xs, rounded x = x) {s : ℝ≥0∞}
    (hs : rounded s = s) (hLength : xs.length * roundoff ≤ 1)
    (hFinite : xs.foldl (fun sum x => rounded (sum + x)) s ≠ ⊤) :
    Near (xs.length * roundoff) 0 (s.toReal + (xs.map ENNReal.toReal).sum)
      (xs.foldl (fun sum x => rounded (sum + x)) s).toReal := by
  have hRoundoff := roundoff_pos.le
  induction xs generalizing s with
  | nil =>
    rw [List.map_nil, List.sum_nil, add_zero]
    exact Near.refl (by positivity) ENNReal.toReal_nonneg
  | cons x xs ih =>
    obtain ⟨hx, hDoubles⟩ := List.forall_mem_cons.mp hDoubles
    rw [List.length_cons, Nat.cast_add_one, add_mul, one_mul] at hLength ⊢
    -- the sum does not shrink any more, so that it is finite after its first step
    have hStep : rounded (s + x) ≠ ⊤ :=
      ne_top_of_le_ne_top hFinite
        (foldl_le_of_sublist (List.nil_sublist xs) le_rfl (rounded_rounded (s + x)))
    have hRest := ih hDoubles (rounded_rounded (s + x)) (by linarith) hFinite
    have hRoundings : 0 ≤ xs.length * roundoff := by positivity
    have hSum : 0 ≤ (xs.map ENNReal.toReal).sum :=
      List.sum_nonneg (List.forall_mem_map.mpr fun _ _ => ENNReal.toReal_nonneg)
    have hFirst := (near_rounded_add hs hx hStep).add (Near.refl hRoundoff hSum)
    rw [List.map_cons, List.sum_cons, ← add_assoc, add_comm (_ * roundoff)]
    have hBoth := hFirst.trans hRest (by positivity) ENNReal.toReal_nonneg
      ⟨hRoundoff, by linarith⟩ ⟨by positivity, by linarith⟩ (by norm_num) le_rfl
    rwa [add_zero, add_zero] at hBoth

/-- A sum is off by one rounding for each of its terms. -/
theorem near_roundedSum {xs : List ℝ≥0∞} (hDoubles : ∀ x ∈ xs, rounded x = x)
    (hLength : xs.length * roundoff ≤ 1) (hFinite : roundedSum xs ≠ ⊤) :
    Near (xs.length * roundoff) 0 (xs.map ENNReal.toReal).sum (roundedSum xs).toReal := by
  have hSum := near_foldl hDoubles rounded_zero hLength hFinite
  rwa [ENNReal.toReal_zero, zero_add] at hSum

/-- The real number that a double stands for. -/
noncomputable def realOf (a : Float) : ℝ := (value a).toReal

theorem realOf_nonneg (a : Float) : 0 ≤ realOf a := ENNReal.toReal_nonneg

theorem sum_map_realOf_nonneg (xs : List Float) : 0 ≤ (xs.map realOf).sum :=
  List.sum_nonneg (List.forall_mem_map.mpr fun a _ => realOf_nonneg a)

/-- A double that stands for a rounded number is off by that rounding. -/
theorem near_realOf {a : Float} {x : ℝ≥0∞} (ha : Represents a (rounded x))
    (hFinite : rounded x ≠ ⊤) : Near roundoff underflow x.toReal (realOf a) := by
  rw [realOf, ha.value_eq]
  exact near_rounded hFinite

theorem rounded_ne_top_of_le_one {x : ℝ≥0∞} (h : x ≤ 1) : rounded x ≠ ⊤ := by
  refine ne_top_of_le_ne_top ENNReal.one_ne_top ?_
  calc rounded x ≤ rounded 1 := rounded_mono h
    _ = 1 := represents_one.rounded_eq

/-! ## Shares of a sum -/

/-- Without anything to rescale by, each weight is an equal share of one. -/
theorem near_sum_equal_shares {n : ℕ} (hn : 1 ≤ n) (hLength : n * roundoff ≤ 1 / 2) :
    Near roundoff (n * underflow) 1
      ((List.replicate n (1.0 / Float.ofNat n)).map realOf).sum := by
  have hShort : n < 2 ^ 53 := by
    have hReal : (n : ℝ) < 2 ^ 53 := by
      calc (n : ℝ) = n * roundoff * 2 ^ 53 := by rw [mul_assoc, roundoff_mul, mul_one]
        _ ≤ 1 / 2 * 2 ^ 53 := by gcongr
        _ < 2 ^ 53 := by norm_num
    exact_mod_cast hReal
  have hPos : (0 : ℝ) < n := by exact_mod_cast hn
  have hCount := represents_natCast hShort
  have hNonzero : (n : ℝ≥0∞) ≠ 0 := by exact_mod_cast (Nat.one_le_iff_ne_zero.mp hn)
  have hOne : Represents 1.0 1 := represents_one
  have hShare := hOne.div hCount hNonzero (.inl ENNReal.one_ne_top)
  have hAtMost : (1 : ℝ≥0∞) / n ≤ 1 :=
    ENNReal.div_le_of_le_mul (by rw [one_mul]; exact_mod_cast hn)
  have hNear := (near_realOf hShare (rounded_ne_top_of_le_one hAtMost)).mul_left hPos.le
  rw [ENNReal.toReal_div, ENNReal.toReal_one, ENNReal.toReal_natCast,
    mul_one_div_cancel hPos.ne'] at hNear
  rw [List.map_replicate, List.sum_replicate, nsmul_eq_mul]
  exact hNear

section Shares

variable {weights : List Float} (h : ∀ a ∈ weights, IsWeight a)
include h

theorem near_total (hLength : weights.length * roundoff ≤ 1)
    (hFinite : value (total weights) ≠ ⊤) :
    Near (weights.length * roundoff) 0 (weights.map realOf).sum (realOf (total weights)) := by
  have hTotal := represents_total fun a ha => (h a ha).1
  have hDoubles : ∀ x ∈ weights.map value, rounded x = x :=
    List.forall_mem_map.mpr fun a _ => rounded_size (isDouble a)
  rw [hTotal.value_eq] at hFinite
  have hNear := near_roundedSum hDoubles (by rwa [List.length_map]) hFinite
  rw [List.length_map, List.map_map] at hNear
  rw [realOf, hTotal.value_eq]
  exact hNear

/-- Otherwise each weight is a share of their sum, rounded. -/
theorem near_sum_shares (hLength : weights.length * roundoff ≤ 1 / 2)
    (hFinite : value (total weights) ≠ ⊤) (hPositive : value (total weights) ≠ 0) :
    Near ((weights.length + 1) * roundoff) (weights.length * underflow) 1
      ((weights.map (· / total weights)).map realOf).sum := by
  have hTotal := represents_total fun a ha => (h a ha).1
  have hPos : 0 < realOf (total weights) := ENNReal.toReal_pos hPositive hFinite
  have hRoundoff := roundoff_pos.le
  have hUnderflow := underflow_pos.le
  -- the sum itself is off, and then each share
  have hSum := (near_total h (by linarith) hFinite).mul_left (inv_nonneg.mpr hPos.le)
  rw [mul_zero, inv_mul_cancel₀ hPos.ne'] at hSum
  have hShare : ∀ a ∈ weights, Near roundoff underflow ((realOf (total weights))⁻¹ * realOf a)
      (realOf (a / total weights)) := by
    intro a ha
    have hQuotient := (represents_value (h a ha).1).div (represents_value hTotal.zero_le)
      hPositive (.inl (h a ha).2)
    have hAtMost : value a / value (total weights) ≤ 1 := by
      refine ENNReal.div_le_of_le_mul ?_
      rw [one_mul, hTotal.value_eq]
      exact value_le_roundedSum ha
    have hNear := near_realOf hQuotient (rounded_ne_top_of_le_one hAtMost)
    rwa [ENNReal.toReal_div, div_eq_inv_mul] at hNear
  have hShares := Near.sum hShare
  rw [List.sum_map_mul_left] at hShares
  rw [List.map_map]
  have hBoth := hSum.symm.trans hShares zero_le_one
    (List.sum_nonneg (List.forall_mem_map.mpr fun a _ => realOf_nonneg _))
    ⟨by positivity, by linarith⟩ ⟨hRoundoff, roundoff_le_one⟩ le_rfl
    (by positivity)
  rw [zero_add] at hBoth
  rw [add_mul, one_mul]
  exact hBoth

/-- Rescaled weights add up to one, up to errors of rounding, unless their sum is infinite. -/
theorem near_sum_normalizeWeights (hSome : weights ≠ [])
    (hLength : weights.length * roundoff ≤ 1 / 2) (hFinite : value (total weights) ≠ ⊤) :
    Near ((weights.length + 1) * roundoff) (weights.length * underflow) 1
      ((normalizeWeights weights).map realOf).sum := by
  have hTotal := represents_total fun a ha => (h a ha).1
  unfold normalizeWeights
  dsimp only
  rw [if_neg (mt List.isEmpty_iff.mp hSome)]
  by_cases hZero : (total weights == 0.0) = true
  · rw [if_pos hZero]
    have hShares := near_sum_equal_shares (List.length_pos_iff.mpr hSome) hLength
    refine hShares.mono ?_ le_rfl zero_le_one (sum_map_realOf_nonneg _)
    rw [add_mul, one_mul]
    exact le_add_of_nonneg_left (mul_nonneg (Nat.cast_nonneg _) roundoff_pos.le)
  · rw [if_neg hZero]
    refine near_sum_shares h hLength hFinite fun hNone => hZero ?_
    exact beq_zero_of_value hTotal.zero_le hNone

end Shares

/-! ## The check -/

/-- The tolerance is more than a hundred and twenty-eighth, which is a double, and less than one. -/
theorem represents_tolerance : ∃ x, Represents weightSumTolerance x ∧ x < 1 ∧
    ENNReal.ofReal (1 / 128) ≤ x := by
  have hTolerance : Represents weightSumTolerance (value weightSumTolerance) :=
    represents_value (by decide +kernel)
  have hOne : Represents 1.0 1 := represents_one
  have hPart : Represents 0.0078125 (ENNReal.ofReal (1 / 128)) := by
    refine ⟨by decide +kernel, ?_⟩
    show ENNReal.ofReal (((2 ^ 52 : ℕ) : ℝ) * 2 ^ (-59 : ℤ)) = _
    norm_num
  exact ⟨_, hTolerance, (hTolerance.lt_iff hOne).mp (by decide +kernel),
    (hPart.le_iff hTolerance).mp (by decide +kernel)⟩

/-- The distance of two numbers is that of the real numbers. -/
theorem max_sub_min_le {x y : ℝ≥0∞} (hx : x ≠ ⊤) (hy : y ≠ ⊤) {distance : ℝ}
    (h : |x.toReal - y.toReal| ≤ distance) : max x y - min x y ≤ ENNReal.ofReal distance := by
  have hMax : max x y ≠ ⊤ := max_ne_top hx hy
  have hOrder : min x y ≤ max x y := min_le_max
  refine (ENNReal.le_ofReal_iff_toReal_le (ENNReal.sub_ne_top hMax)
    ((abs_nonneg _).trans h)).mpr ?_
  rwa [ENNReal.toReal_sub_of_le hOrder hMax, ENNReal.toReal_max hx hy, ENNReal.toReal_min hx hy,
    max_sub_min_eq_abs']

/-- A sum is accepted if it is close to one. -/
theorem ensureWeightSum_of_near {weights : List Float} (h : ∀ a ∈ weights, 0.0 ≤ a)
    (hFinite : value (total weights) ≠ ⊤) (hNear : |realOf (total weights) - 1| ≤ 1 / 128) :
    ensureWeightSum weights = .ok () := by
  obtain ⟨tolerance, hTolerance, -, hLeast⟩ := represents_tolerance
  have hOne : Represents 1.0 1 := represents_one
  have hTotal := represents_value (represents_total h).zero_le
  have hDistance := hTotal.abs_sub hOne hFinite ENNReal.one_ne_top
  have hAccepted : (total weights - 1.0).abs ≤ weightSumTolerance := by
    rw [hDistance.le_iff hTolerance, ← hTolerance.rounded_eq]
    refine rounded_mono ((max_sub_min_le hFinite ENNReal.one_ne_top ?_).trans hLeast)
    rwa [ENNReal.toReal_one]
  unfold ensureWeightSum
  dsimp only
  rw [if_pos hAccepted, ite_self]

/-- Lists that are longer do not fit into the address space of a machine: each of their entries
takes 16 bytes, and addresses have 48 bits. The errors of shorter ones stay below the tolerance. -/
theorem roundoffs_le {n : ℕ} (hn : n < 2 ^ 44) : (n + 1) * roundoff ≤ 1 / 512 := by
  have hReal : (n : ℝ) + 1 ≤ 2 ^ 44 := by exact_mod_cast hn
  calc ((n : ℝ) + 1) * roundoff ≤ 2 ^ 44 * roundoff :=
        mul_le_mul_of_nonneg_right hReal roundoff_pos.le
    _ = roundoff * 2 ^ 53 / 512 := by ring
    _ = 1 / 512 := by rw [roundoff_mul]

/-- Rescaled weights are accepted if their sum was finite. -/
theorem ensureWeightSum_normalizeWeights {weights : List Float} (h : ∀ a ∈ weights, IsWeight a)
    (hLength : weights.length < 2 ^ 44) (hFinite : value (total weights) ≠ ⊤) :
    ensureWeightSum (normalizeWeights weights) = .ok () := by
  by_cases hNone : weights = []
  · subst hNone
    rfl
  have hRoundoff := roundoff_pos
  have hUnderflow := underflow_pos
  have hShares := roundoffs_le hLength
  have hSums : weights.length * roundoff ≤ 1 / 512 := by linarith
  have hAbsolute := mul_underflow_le hSums
  have hBounds := normalizeWeights_bounds h
  have hSame : (normalizeWeights weights).length = weights.length := length_normalizeWeights weights
  have hWeights : ∀ b ∈ normalizeWeights weights, IsWeight b := fun b hb =>
    ⟨(hBounds b hb).1, ne_top_of_le_ne_top ENNReal.one_ne_top (hBounds b hb).2⟩
  have hTotal : value (total (normalizeWeights weights)) ≠ ⊤ := by
    rw [(represents_total fun b hb => (hBounds b hb).1).value_eq]
    refine roundedSum_ne_top (List.forall_mem_map.mpr fun b hb => (hBounds b hb).2.trans ?_)
    norm_num
  -- the shares are off, and then their sum
  have hSum := near_sum_normalizeWeights h hNone (by linarith) hFinite
  have hAdded := near_total hWeights (by rw [hSame]; linarith) hTotal
  rw [hSame] at hAdded
  have hNear := hSum.trans hAdded zero_le_one (realOf_nonneg _)
    ⟨by positivity, by linarith⟩ ⟨by positivity, by linarith⟩ (by positivity) le_rfl
  refine ensureWeightSum_of_near (fun b hb => (hBounds b hb).1) hTotal ?_
  have hNonneg := realOf_nonneg (total (normalizeWeights weights))
  obtain ⟨hLeft, hRight⟩ := hNear.mono (add_le_add hShares hSums) (add_le_add hAbsolute le_rfl)
    zero_le_one hNonneg
  rw [abs_le]
  constructor <;> linarith

/-- A sum is refused if it is zero. -/
theorem ensureWeightSum_of_zero {weights : List Float} (hSome : weights ≠ [])
    (hSum : Represents (total weights) 0) :
    ensureWeightSum weights = .error (.weightSum (total weights)) := by
  obtain ⟨tolerance, hTolerance, hLess, -⟩ := represents_tolerance
  have hOne : Represents 1.0 1 := represents_one
  have hDistance := hSum.abs_sub hOne ENNReal.zero_ne_top ENNReal.one_ne_top
  rw [max_eq_right zero_le_one, min_eq_left zero_le_one, tsub_zero, hOne.rounded_eq] at hDistance
  have hFar : ¬ (total weights - 1.0).abs ≤ weightSumTolerance := by
    rw [hDistance.le_iff hTolerance]
    exact hLess.not_ge
  unfold ensureWeightSum
  dsimp only
  rw [if_neg (mt List.isEmpty_iff.mp hSome), if_neg hFar]

theorem represents_total_of_zeros {weights : List Float} (h : ∀ a ∈ weights, Represents a 0) :
    Represents (total weights) 0 := by
  have hTerms : ∀ x ∈ weights.map value, x ≤ 0 :=
    List.forall_mem_map.mpr fun a ha => (h a ha).value_eq.le
  have hBound : roundedSum (weights.map value) ≤ 0 :=
    foldl_le_bound hTerms (by rw [add_zero, rounded_zero]) le_rfl
  exact le_zero_iff.mp hBound ▸ represents_total fun a ha => (h a ha).zero_le

/-- Rescaled weights are refused if their sum was infinite: no share of it is left. -/
theorem ensureWeightSum_of_overflow {weights : List Float} (h : ∀ a ∈ weights, IsWeight a)
    (hOverflow : value (total weights) = ⊤) :
    ∃ sum, (sum == 0.0) = true ∧
      ensureWeightSum (normalizeWeights weights) = .error (.weightSum sum) := by
  have hZero : Represents 0.0 0 := ⟨by decide, rfl⟩
  have hTotal : Represents (total weights) ⊤ :=
    ⟨(represents_total fun a ha => (h a ha).1).zero_le, hOverflow⟩
  have hSome : weights ≠ [] := by
    rintro rfl
    cases hOverflow.symm.trans (show value (total []) = 0 from rfl)
  have hNonzero : ¬ (total weights == 0.0) = true := fun hNone =>
    ENNReal.top_ne_zero ((hTotal.beq_iff hZero).mp hNone)
  have hShares : normalizeWeights weights = weights.map (· / total weights) := by
    unfold normalizeWeights
    dsimp only
    rw [if_neg (mt List.isEmpty_iff.mp hSome), if_neg hNonzero]
  -- each weight is finite, and so is nothing beside the sum
  have hShare : ∀ b ∈ normalizeWeights weights, Represents b 0 := by
    rw [hShares]
    refine List.forall_mem_map.mpr fun a ha => ?_
    have hQuotient := (represents_value (h a ha).1).div hTotal ENNReal.top_ne_zero
      (.inl (h a ha).2)
    rwa [ENNReal.div_top, rounded_zero] at hQuotient
  have hSum := represents_total_of_zeros hShare
  have hKept : normalizeWeights weights ≠ [] := by
    rwa [hShares, Ne, List.map_eq_nil_iff]
  exact ⟨_, (hSum.beq_iff hZero).mpr rfl, ensureWeightSum_of_zero hKept hSum⟩

/-- The sum of the weights of the rules that have scores. -/
def weightTotal (weights : Weights) (scores : List (Rule × Float)) : Float :=
  total (scores.map fun entry => weights.get entry.1)

theorem isWeight_of_validate {weights : Weights} (h : weights.validate = .ok ())
    (rules : List Rule) : ∀ a ∈ rules.map weights.get, IsWeight a :=
  List.forall_mem_map.mpr fun rule _ =>
    isWeight_of_isProper (Weights.isProper_of_validate h rule)

theorem isFinite_weightTotal_iff {weights : Weights} (h : weights.validate = .ok ())
    (scores : List (Rule × Float)) :
    (weightTotal weights scores).isFinite = true ↔
      value (total ((scores.map (·.1)).map weights.get)) ≠ ⊤ := by
  have hTotal := represents_total fun a ha => (isWeight_of_validate h (scores.map (·.1)) a ha).1
  rw [hTotal.value_eq, ← hTotal.isFinite_iff, List.map_map]
  rfl

/-- Proper weights aggregate just if their sum is finite. Otherwise the rescaled weights add up to
zero, and the aggregation fails with that sum. -/
theorem aggregate_ok_iff_isFinite {weights : Weights} (hWeights : weights.validate = .ok ())
    (scores : List (Rule × Float)) (totals : ScoreTotals) (now : Instant) :
    (scores.length < 2 ^ 44 →
      ((∃ score, aggregate weights scores totals now = .ok score) ↔
        (weightTotal weights scores).isFinite = true)) ∧
    ((weightTotal weights scores).isFinite = false →
      ∃ sum, (sum == 0.0) = true ∧
        aggregate weights scores totals now = .error (.weightSum sum)) := by
  have hProper := isWeight_of_validate hWeights (scores.map (·.1))
  have hFails : (weightTotal weights scores).isFinite = false →
      ∃ sum, (sum == 0.0) = true ∧
        aggregate weights scores totals now = .error (.weightSum sum) := by
    intro hInfinite
    have hOverflow : value (total ((scores.map (·.1)).map weights.get)) = ⊤ := by
      by_contra hFinite
      rw [(isFinite_weightTotal_iff hWeights scores).mpr hFinite] at hInfinite
      cases hInfinite
    obtain ⟨sum, hZero, hRefused⟩ := ensureWeightSum_of_overflow hProper hOverflow
    refine ⟨sum, hZero, ?_⟩
    rw [aggregate_eq, rescaledWeights, hRefused]
    rfl
  refine ⟨fun hLength => ⟨?_, fun hFinite => ?_⟩, hFails⟩
  · rintro ⟨score, hScore⟩
    by_contra hInfinite
    obtain ⟨sum, -, hError⟩ := hFails (Bool.eq_false_of_not_eq_true hInfinite)
    cases hScore.symm.trans hError
  · have hAccepted := ensureWeightSum_normalizeWeights hProper
      (by rwa [List.length_map, List.length_map])
      ((isFinite_weightTotal_iff hWeights scores).mp hFinite)
    rw [aggregate_eq, rescaledWeights, hAccepted]
    exact ⟨_, rfl⟩

/-- Weights that are finite, and whose sum is not. -/
def hugeWeights : Weights where
  complexity := 1e308
  size := 1e308
  typeSafety := 0.0
  duplication := 0.0
  circularDependency := 0.0

theorem validate_hugeWeights : hugeWeights.validate = .ok () := by
  have hNone : (Rule.all.find? fun rule => !Weights.isProper (hugeWeights.get rule)) = none := by
    decide +kernel
  rw [Weights.validate, hNone]

/-- Scores of the two rules that the huge weights are about. -/
def hugeScores : List (Rule × Float) := [(.complexity, 50.0), (.size, 100.0)]

/-- A huge weight aggregates alone, and the two of them do not. -/
theorem aggregate_ok_iff_isFinite_hugeWeights :
    (∃ score, aggregate hugeWeights (hugeScores.take 1) ⟨1, 0, 0⟩ ⟨0, 0, 0⟩ = .ok score) ∧
    ∃ sum, (sum == 0.0) = true ∧
      aggregate hugeWeights hugeScores ⟨2, 0, 0⟩ ⟨0, 0, 0⟩ = .error (.weightSum sum) := by
  obtain ⟨hAlone, -⟩ :=
    aggregate_ok_iff_isFinite validate_hugeWeights (hugeScores.take 1) ⟨1, 0, 0⟩ ⟨0, 0, 0⟩
  obtain ⟨-, hBoth⟩ :=
    aggregate_ok_iff_isFinite validate_hugeWeights hugeScores ⟨2, 0, 0⟩ ⟨0, 0, 0⟩
  exact ⟨(hAlone (by decide)).mpr (by decide +kernel), hBoth (by decide +kernel)⟩

/-- Weights that were found valid do not aggregate. -/
theorem hugeWeights_valid_and_refused :
    hugeWeights.validate = .ok () ∧
      ∀ score, aggregate hugeWeights hugeScores ⟨2, 0, 0⟩ ⟨0, 0, 0⟩ ≠ .ok score := by
  refine ⟨validate_hugeWeights, fun score hScore => ?_⟩
  have hFails : (aggregate hugeWeights hugeScores ⟨2, 0, 0⟩ ⟨0, 0, 0⟩).isOk = false := by
    decide +kernel
  rw [hScore] at hFails
  cases hFails

end DebtGauge
