import DebtGauge.Proofs.Double.Integral
import DebtGauge.Score.Density

/-!
# The score of a category as a number

The score of a category is worked out with doubles, rounding at every step. The number that it
stands for follows the same steps with the exact operations, rounded; it is monotone because each
of them is. More findings add to a sum that never grows out of bounds, and more files divide it
further.

Main definitions and results:

* `roundedSum` — the number that a sum of doubles stands for;
* `categoryValue` — the number that a category's score stands for;
* `represents_score` — a category's score stands for it;
* `categoryValue_anti`, `categoryValue_mono` — more findings lower it, more files raise it.
-/

namespace DebtGauge

open Double
open scoped ENNReal

/-! ## Sums -/

/-- The sum from left to right, rounded at every step. -/
noncomputable def roundedSum (xs : List ℝ≥0∞) : ℝ≥0∞ :=
  xs.foldl (fun sum x => rounded (sum + x)) 0

theorem represents_foldl {xs : List Float} (hNonneg : ∀ a ∈ xs, 0.0 ≤ a) {start : Float}
    {s : ℝ≥0∞} (hStart : Represents start s) :
    Represents (xs.foldl (· + ·) start)
      ((xs.map value).foldl (fun sum x => rounded (sum + x)) s) := by
  induction xs generalizing start s with
  | nil => exact hStart
  | cons a xs ih =>
    have hHead := represents_value (hNonneg a (List.mem_cons_self ..))
    exact ih (fun b hb => hNonneg b (List.mem_cons_of_mem a hb)) (hStart.add hHead)

theorem represents_total {xs : List Float} (hNonneg : ∀ a ∈ xs, 0.0 ≤ a) :
    Represents (total xs) (roundedSum (xs.map value)) :=
  represents_foldl hNonneg ⟨by decide, rfl⟩

/-- Further terms raise a sum, wherever they are put in. -/
theorem foldl_le_of_sublist {xs ys : List ℝ≥0∞} (h : xs.Sublist ys) {s t : ℝ≥0∞} (hst : s ≤ t)
    (ht : rounded t = t) :
    xs.foldl (fun sum x => rounded (sum + x)) s ≤
      ys.foldl (fun sum x => rounded (sum + x)) t := by
  induction h generalizing s t with
  | slnil => exact hst
  | cons y _ ih =>
    -- the term makes the sum no smaller than it was
    refine ih (hst.trans ?_) (rounded_rounded _)
    calc t = rounded t := ht.symm
      _ ≤ rounded (t + y) := rounded_mono le_self_add
  | cons_cons y _ ih =>
    exact ih (rounded_mono (by gcongr)) (rounded_rounded _)

theorem roundedSum_le_of_sublist {xs ys : List ℝ≥0∞} (h : xs.Sublist ys) :
    roundedSum xs ≤ roundedSum ys :=
  foldl_le_of_sublist h le_rfl rounded_zero

/-- A sum does not grow beyond a bound to which its terms add nothing. -/
theorem foldl_le_bound {xs : List ℝ≥0∞} {term bound : ℝ≥0∞} (hTerms : ∀ x ∈ xs, x ≤ term)
    (hBound : rounded (bound + term) ≤ bound) {s : ℝ≥0∞} (hs : s ≤ bound) :
    xs.foldl (fun sum x => rounded (sum + x)) s ≤ bound := by
  induction xs generalizing s with
  | nil => exact hs
  | cons x xs ih =>
    refine ih (fun y hy => hTerms y (List.mem_cons_of_mem x hy)) ?_
    have hTerm := hTerms x (List.mem_cons_self ..)
    calc rounded (s + x) ≤ rounded (bound + term) := rounded_mono (by gcongr)
      _ ≤ bound := hBound

theorem foldl_mono {xs ys : List ℝ≥0∞} (h : List.Forall₂ (· ≤ ·) xs ys) {s t : ℝ≥0∞}
    (hst : s ≤ t) :
    xs.foldl (fun sum x => rounded (sum + x)) s ≤
      ys.foldl (fun sum x => rounded (sum + x)) t := by
  induction h generalizing s t with
  | nil => exact hst
  | cons hHead _ ih => exact ih (rounded_mono (by gcongr))

theorem roundedSum_mono {xs ys : List ℝ≥0∞} (h : List.Forall₂ (· ≤ ·) xs ys) :
    roundedSum xs ≤ roundedSum ys :=
  foldl_mono h le_rfl

theorem represents_hundred : Represents 100.0 100 where
  zero_le := by decide
  value_eq := by
    show ENNReal.ofReal (((100 * 2 ^ 46 : ℕ) : ℝ) * 2 ^ (-46 : ℤ)) = 100
    have hHundred : ((100 * 2 ^ 46 : ℕ) : ℝ) * 2 ^ (-46 : ℤ) = 100 := by norm_num
    rw [hHundred]
    norm_num

/-- The double `2 ^ 60`. A hundred that is added to it is lost. -/
def ceiling : Float := Float.ofBits 0x43B0000000000000

/-- Terms of at most a hundred never add up to more than a bound, since terms that are added to
a large sum are lost. -/
theorem roundedSum_ne_top {xs : List ℝ≥0∞} (h : ∀ x ∈ xs, x ≤ 100) : roundedSum xs ≠ ⊤ := by
  -- a single evaluation of doubles stands for any number of terms: from `ceiling` on the sum
  -- does not move, and it starts below
  have hCeiling : Represents ceiling (value ceiling) := represents_value (by decide +kernel)
  have hLost : rounded (value ceiling + 100) = value ceiling := by
    have hStays : ceiling + 100.0 = ceiling := by decide +kernel
    rw [← (hCeiling.add represents_hundred).value_eq, hStays]
  have hBound := foldl_le_bound h hLost.le (zero_le (a := value ceiling))
  exact ne_top_of_le_ne_top (hCeiling.isFinite_iff.mp (by decide +kernel)) hBound

/-! ## Two decimals -/

/-- The number with two decimals that a number is rounded to. -/
noncomputable def round2Value (x : ℝ≥0∞) : ℝ≥0∞ :=
  rounded (rounded (wholeHalfUp (rounded (x * 100))) / 100)

/-- The number that a score of so many hundredths stands for. -/
noncomputable def hundredth (k : ℕ) : ℝ≥0∞ := rounded (k / 100)

theorem represents_round2 {a : Float} {x : ℝ≥0∞} (h : Represents a x) :
    Represents (round2 a) (round2Value x) := by
  have hHundred : (100 : ℝ≥0∞) ≠ ⊤ := by norm_num
  have hNonzero : (100 : ℝ≥0∞) ≠ 0 := by norm_num
  have hScaled := h.mul represents_hundred hHundred (.inr hNonzero)
  exact hScaled.roundHalfAway.div represents_hundred hNonzero (.inr hHundred)

theorem round2Value_mono : Monotone round2Value := by
  intro x y h
  refine rounded_mono (ENNReal.div_le_div_right ?_ _)
  exact rounded_mono (wholeHalfUp_mono (rounded_mono (by gcongr)))

/-- A perfect score has two decimals. -/
theorem round2Value_hundred : round2Value 100 = 100 := by
  have hStays : round2 100.0 = 100.0 := by decide +kernel
  rw [← (represents_round2 represents_hundred).value_eq, hStays, represents_hundred.value_eq]

/-! ## Penalties -/

/-- The number that a penalty stands for, where the points of the findings add up to `raw`. -/
noncomputable def penaltyValue (rule : Rule) (files : ℕ) (raw : ℝ≥0∞) : ℝ≥0∞ :=
  match rule.scale? with
  | some scale => rounded (rounded (raw / rounded files) * value scale)
  | none => raw

/-- The numbers that the points of findings stand for. -/
noncomputable def pointValues (rule : Rule) (severities : List Severity) : List ℝ≥0∞ :=
  severities.map fun severity => value (rule.points.of severity)

/-- No finding takes away more than a hundred points. -/
theorem points_bounds (rule : Rule) (severity : Severity) :
    0.0 ≤ rule.points.of severity ∧ rule.points.of severity ≤ 100.0 := by
  cases rule <;> cases severity <;> decide +kernel

theorem scale_bounds {rule : Rule} {scale : Float} (h : rule.scale? = some scale) :
    0.0 ≤ scale ∧ scale.isFinite = true ∧ ¬ scale ≤ 0.0 := by
  cases rule <;> cases h <;> decide +kernel

/-- The points of findings never add up to more than a bound. -/
theorem roundedSum_pointValues_ne_top (rule : Rule) (severities : List Severity) :
    roundedSum (pointValues rule severities) ≠ ⊤ := by
  refine roundedSum_ne_top fun x hx => ?_
  obtain ⟨severity, -, rfl⟩ := List.mem_map.mp hx
  obtain ⟨hNonneg, hAtMost⟩ := points_bounds rule severity
  exact (represents_value hNonneg).le_iff represents_hundred |>.mp hAtMost

theorem rounded_natCast_pos {n : ℕ} (hn : 1 ≤ n) : 1 ≤ rounded n := by
  have hOne : rounded ((1 : ℕ) : ℝ≥0∞) = 1 := by
    rw [Nat.cast_one, represents_one.rounded_eq]
  calc 1 = rounded ((1 : ℕ) : ℝ≥0∞) := hOne.symm
    _ ≤ rounded n := rounded_mono (by exact_mod_cast hn)

theorem represents_penalty (rule : Rule) {files : ℕ} (hFiles : 1 ≤ files)
    (severities : List Severity) :
    Represents (penalty rule.points rule.scale? (some files) severities)
      (penaltyValue rule files (roundedSum (pointValues rule severities))) := by
  have hNonneg : ∀ a ∈ severities.map rule.points.of, 0.0 ≤ a := by
    intro a ha
    obtain ⟨severity, -, rfl⟩ := List.mem_map.mp ha
    exact (points_bounds rule severity).1
  have hRaw := represents_total hNonneg
  rw [List.map_map] at hRaw
  obtain ⟨files, rfl⟩ := Nat.exists_eq_add_one_of_ne_zero (Nat.one_le_iff_ne_zero.mp hFiles)
  unfold penalty penaltyValue
  cases hScale : rule.scale? with
  | none => exact hRaw
  | some scale =>
    obtain ⟨hScaleNonneg, hScaleFinite, hScalePos⟩ := scale_bounds hScale
    have hScaleValue := represents_value hScaleNonneg
    have hFilesNonzero : rounded ((files + 1 : ℕ) : ℝ≥0∞) ≠ 0 :=
      (one_pos.trans_le (rounded_natCast_pos hFiles)).ne'
    have hDivided := hRaw.div (represents_ofNat (files + 1)) hFilesNonzero
      (.inl (roundedSum_pointValues_ne_top rule severities))
    refine hDivided.mul hScaleValue (hScaleValue.isFinite_iff.mp hScaleFinite) (.inr ?_)
    intro hZero
    exact hScalePos ((hScaleValue.le_iff ⟨by decide, rfl⟩).mpr hZero.le)

theorem penaltyValue_mono (rule : Rule) (files : ℕ) : Monotone (penaltyValue rule files) := by
  intro raw raw' h
  unfold penaltyValue
  cases rule.scale? with
  | none => exact h
  | some scale =>
    refine rounded_mono (mul_le_mul_left ?_ _)
    exact rounded_mono (ENNReal.div_le_div_right h _)

/-- The penalty is spread over the files. -/
theorem penaltyValue_anti (rule : Rule) (raw : ℝ≥0∞) {files files' : ℕ} (h : files ≤ files') :
    penaltyValue rule files' raw ≤ penaltyValue rule files raw := by
  unfold penaltyValue
  cases rule.scale? with
  | none => exact le_rfl
  | some scale =>
    refine rounded_mono (mul_le_mul_left ?_ _)
    exact rounded_mono (ENNReal.div_le_div_left (rounded_mono (by exact_mod_cast h)) _)

/-! ## Categories -/

/-- The number that a category's score stands for. -/
noncomputable def categoryValue (rule : Rule) (files : ℕ) (severities : List Severity) : ℝ≥0∞ :=
  if severities.isEmpty then 100
  else round2Value
    (rounded (100 - penaltyValue rule files (roundedSum (pointValues rule severities))))

/-- A difference that is cut off at zero is rounded. -/
theorem represents_atLeastZero_sub {a b : Float} {x y : ℝ≥0∞} (ha : Represents a x)
    (hb : Represents b y) (hx : x ≠ ⊤) :
    Represents (atLeastZero (a - b)) (rounded (x - y)) := by
  unfold atLeastZero
  obtain hDifference | ⟨hNegative, hOrder⟩ := ha.sub hb hx
  · rw [if_pos hDifference.zero_le]
    exact hDifference
  · -- a negative difference is cut off where the difference of numbers is
    rw [if_neg hNegative, tsub_eq_zero_of_le hOrder, rounded_zero]
    exact ⟨by decide, rfl⟩

/-- The score of a rule's findings stands for the number of its category. -/
theorem represents_score (rule : Rule) {files : ℕ} (hFiles : 1 ≤ files)
    (findings : List Finding) :
    Represents (rule.score (some files) findings)
      (categoryValue rule files (findings.map (·.severity))) := by
  unfold Rule.score densityScore categoryValue
  by_cases hEmpty : (findings.map (·.severity)).isEmpty = true
  · rw [if_pos hEmpty, if_pos hEmpty]
    exact represents_hundred
  · rw [if_neg hEmpty, if_neg hEmpty]
    exact represents_round2 (represents_atLeastZero_sub represents_hundred
      (represents_penalty rule hFiles _) (by norm_num))

/-- Whatever is taken away, what is left is at most a hundred. -/
theorem rounded_sub_le (lost : ℝ≥0∞) : rounded (100 - lost) ≤ 100 :=
  calc rounded (100 - lost) ≤ rounded 100 := rounded_mono tsub_le_self
    _ = 100 := represents_hundred.rounded_eq

theorem round2Value_le {x : ℝ≥0∞} (h : x ≤ 100) : round2Value x ≤ 100 :=
  calc round2Value x ≤ round2Value 100 := round2Value_mono h
    _ = 100 := round2Value_hundred

theorem categoryValue_le (rule : Rule) (files : ℕ) (severities : List Severity) :
    categoryValue rule files severities ≤ 100 := by
  unfold categoryValue
  split
  · exact le_rfl
  · exact round2Value_le (rounded_sub_le _)

/-- More findings do not raise the score of a category, wherever they stand. -/
theorem categoryValue_anti (rule : Rule) (files : ℕ) {severities severities' : List Severity}
    (h : severities.Sublist severities') :
    categoryValue rule files severities' ≤ categoryValue rule files severities := by
  by_cases hEmpty : severities.isEmpty = true
  · -- without findings the score is perfect
    rw [categoryValue, categoryValue, if_pos hEmpty]
    exact categoryValue_le rule files severities'
  · -- with findings both scores take the same steps, and each step is monotone
    have hEmpty' : ¬ severities'.isEmpty = true := by
      rw [List.isEmpty_iff] at hEmpty ⊢
      rintro rfl
      exact hEmpty (List.sublist_nil.mp h)
    unfold categoryValue
    rw [if_neg hEmpty, if_neg hEmpty']
    refine round2Value_mono (rounded_mono (tsub_le_tsub_left ?_ _))
    exact penaltyValue_mono rule files (roundedSum_le_of_sublist (h.map _))

/-- More files do not lower the score of a category. -/
theorem categoryValue_mono (rule : Rule) {files files' : ℕ} (h : files ≤ files')
    (severities : List Severity) :
    categoryValue rule files severities ≤ categoryValue rule files' severities := by
  unfold categoryValue
  split
  · exact le_rfl
  · exact round2Value_mono (rounded_mono (tsub_le_tsub_left (penaltyValue_anti rule _ h) _))

end DebtGauge
