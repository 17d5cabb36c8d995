import Mathlib

/-!
# Rounding to doubles

The magnitudes of doubles are the multiples `m · 2^e` with `m < 2^53` and `-1074 ≤ e`, up to
`2^1024`. A real number is rounded to the nearest of them, a number half way between two of
them to the one with the even multiple, and what reaches `2^1024` becomes infinite. Rounding
is monotone and leaves the magnitudes of doubles as they are.

Main definitions and results:

* `Locates` — where a number lies between a natural number and the next one;
* `nearest` — the rounded number, without regard to overflow;
* `rounded` — the rounded number, which may be infinite;
* `roundoff`, `underflow` — the relative and the absolute error of one rounding;
* `wholeHalfUp` — the nearest whole number, a half going up;
* `Canonical`, `IsRounded` — the mantissas and exponents that doubles have, and the double that
  a number is rounded to;
* `rounded_mono` — rounding is monotone;
* `rounded_magnitude` — magnitudes of doubles stay as they are.
-/

namespace DebtGauge.Double

open Float.Model Float.Model.UnpackedFloat
open scoped ENNReal

/-! ## Rounding to natural numbers -/

/-- The nearest natural number, a half going to the even one. -/
noncomputable def roundEven (y : ℝ) : ℕ :=
  if y < ⌊y⌋₊ + 1 / 2 then ⌊y⌋₊
  else if y = ⌊y⌋₊ + 1 / 2 then ⌊y⌋₊ + ⌊y⌋₊ % 2
  else ⌊y⌋₊ + 1

theorem floor_le_roundEven (y : ℝ) : ⌊y⌋₊ ≤ roundEven y := by
  unfold roundEven
  split_ifs <;> omega

theorem roundEven_le_floor_add_one (y : ℝ) : roundEven y ≤ ⌊y⌋₊ + 1 := by
  unfold roundEven
  split_ifs <;> omega

@[simp]
theorem roundEven_natCast (n : ℕ) : roundEven n = n := by
  rw [roundEven, Nat.floor_natCast, if_pos (by norm_num)]

theorem roundEven_mono {y z : ℝ} (h : y ≤ z) : roundEven y ≤ roundEven z := by
  obtain hFloor | hFloor := (Nat.floor_mono h).lt_or_eq
  · -- a natural number lies between the two
    calc roundEven y ≤ ⌊y⌋₊ + 1 := roundEven_le_floor_add_one y
      _ ≤ ⌊z⌋₊ := hFloor
      _ ≤ roundEven z := floor_le_roundEven z
  · -- same floor: both are compared with the same half
    unfold roundEven
    rw [hFloor]
    by_cases hBelow : y < ⌊z⌋₊ + 1 / 2
    · rw [if_pos hBelow]
      split_ifs <;> omega
    have hAbove : ¬ z < ⌊z⌋₊ + 1 / 2 := fun hz => hBelow (h.trans_lt hz)
    rw [if_neg hBelow, if_neg hAbove]
    by_cases hHalf : y = ⌊z⌋₊ + 1 / 2
    · rw [if_pos hHalf]
      split_ifs <;> omega
    have hOver : z ≠ ⌊z⌋₊ + 1 / 2 := fun hz =>
      hHalf (le_antisymm (h.trans_eq hz) (not_lt.mp hBelow))
    rw [if_neg hHalf, if_neg hOver]

theorem roundEven_le {y : ℝ} {n : ℕ} (h : y ≤ n) : roundEven y ≤ n :=
  (roundEven_mono h).trans_eq (roundEven_natCast n)

theorem le_roundEven {y : ℝ} {n : ℕ} (h : n ≤ y) : n ≤ roundEven y :=
  (roundEven_natCast n).symm.trans_le (roundEven_mono h)

/-! ## Located numbers -/

/-- Where a number lies between a mantissa and the next one. -/
def Locates (m : ℕ) (y : ℝ) : Accuracy → Prop
  | .exact => y = m
  | .inexact .lt => m < y ∧ y < m + 1 / 2
  | .inexact .eq => y = m + 1 / 2
  | .inexact .gt => m + 1 / 2 < y ∧ y < m + 1

theorem locates_exact (m : ℕ) : Locates m m .exact := rfl

namespace Locates

variable {m : ℕ} {y : ℝ} {accuracy : Accuracy}

theorem bounds (h : Locates m y accuracy) : m ≤ y ∧ y < m + 1 := by
  cases accuracy with
  | exact =>
    rw [show y = m from h]
    constructor <;> linarith
  | inexact ordering =>
    cases ordering with
    | lt => exact ⟨h.1.le, by linarith [h.2]⟩
    | eq =>
      rw [show y = m + 1 / 2 from h]
      constructor <;> linarith
    | gt => exact ⟨by linarith [h.1], h.2⟩

theorem floor_eq (h : Locates m y accuracy) : ⌊y⌋₊ = m := by
  have hBounds := h.bounds
  exact (Nat.floor_eq_iff ((Nat.cast_nonneg m).trans hBounds.1)).mpr hBounds

/-- The digits that are left out decide how the mantissa is rounded. -/
theorem roundToNearestEven_eq (h : Locates m y accuracy) :
    accuracy.roundToNearestEven m = roundEven y := by
  unfold roundEven
  rw [h.floor_eq]
  cases accuracy with
  | exact =>
    rw [if_pos (by rw [show y = m from h]; linarith)]
    rfl
  | inexact ordering =>
    cases ordering with
    | lt =>
      rw [if_pos h.2]
      rfl
    | eq =>
      have hHalf : y = m + 1 / 2 := h
      rw [if_neg hHalf.not_lt, if_pos hHalf]
      rfl
    | gt =>
      rw [if_neg h.1.le.not_gt, if_neg h.1.ne']
      rfl

end Locates

/-! ## Rounding to multiples of a power of two -/

/-- The exponent of the unit in the last place of a number. -/
noncomputable def ulpExponent (x : ℝ) : ℤ := max (Int.log 2 x - 52) (-1074)

/-- The nearest number with at most 53 binary digits, none of them behind the place 1074. -/
noncomputable def nearest (x : ℝ) : ℝ :=
  roundEven (x / 2 ^ ulpExponent x) * 2 ^ ulpExponent x

@[simp]
theorem nearest_zero : nearest 0 = 0 := by
  have hZero : roundEven 0 = 0 := by exact_mod_cast roundEven_natCast 0
  rw [nearest, zero_div, hZero, Nat.cast_zero, zero_mul]

theorem nearest_nonneg (x : ℝ) : 0 ≤ nearest x := by
  unfold nearest
  positivity

/-- A number with 53 digits in units of a power of two has a unit in the last place that is
no larger. -/
theorem ulpExponent_le {x : ℝ} {e : ℤ} (hx : x < 2 ^ (53 + e)) (he : -1074 ≤ e) (hPos : 0 < x) :
    ulpExponent x ≤ e := by
  have hLog : Int.log 2 x < 53 + e :=
    (Int.lt_zpow_iff_log_lt (by decide) hPos).mp (by exact_mod_cast hx)
  unfold ulpExponent
  omega

/-- A number in units of its last place has at most 53 digits. -/
theorem div_ulp_lt {x : ℝ} (hPos : 0 < x) : x / 2 ^ ulpExponent x < 2 ^ 53 := by
  have hLog : Int.log 2 x < 53 + ulpExponent x := by
    unfold ulpExponent
    omega
  have hx : x < 2 ^ (53 + ulpExponent x) := by
    have := (Int.lt_zpow_iff_log_lt (by decide) hPos).mpr hLog
    exact_mod_cast this
  rw [div_lt_iff₀ (by positivity)]
  calc x < 2 ^ (53 + ulpExponent x) := hx
    _ = 2 ^ 53 * 2 ^ ulpExponent x := by
      rw [zpow_add₀ (by norm_num)]
      norm_cast

/-- Where the unit in the last place is not the least one, a number has 53 digits in it. -/
theorem le_div_ulp {x : ℝ} (hPos : 0 < x) (hUlp : -1074 < ulpExponent x) :
    2 ^ 52 ≤ x / 2 ^ ulpExponent x := by
  have hLog : 52 + ulpExponent x ≤ Int.log 2 x := by
    unfold ulpExponent at hUlp ⊢
    omega
  have hx : (2 : ℝ) ^ (52 + ulpExponent x) ≤ x := by
    have := (Int.zpow_le_iff_le_log (by decide) hPos).mpr hLog
    exact_mod_cast this
  rw [le_div_iff₀ (by positivity)]
  calc (2 : ℝ) ^ 52 * 2 ^ ulpExponent x = 2 ^ (52 + ulpExponent x) := by
        rw [zpow_add₀ (by norm_num)]
        norm_cast
    _ ≤ x := hx

theorem nearest_mono {x y : ℝ} (hx : 0 ≤ x) (h : x ≤ y) : nearest x ≤ nearest y := by
  obtain rfl | hPos := hx.eq_or_lt
  · rw [nearest_zero]
    exact nearest_nonneg y
  have hUlp : ulpExponent x ≤ ulpExponent y := by
    have := Int.log_mono_right (b := 2) hPos h
    unfold ulpExponent
    omega
  obtain hLess | hEq := hUlp.lt_or_eq
  · -- a power of two lies between the two numbers
    have hLow : roundEven (x / 2 ^ ulpExponent x) ≤ 2 ^ 53 :=
      roundEven_le (by exact_mod_cast (div_ulp_lt hPos).le)
    have hAbove : -1074 < ulpExponent y := (le_max_right _ _).trans_lt hLess
    have hHigh : 2 ^ 52 ≤ roundEven (y / 2 ^ ulpExponent y) :=
      le_roundEven (by exact_mod_cast le_div_ulp (hPos.trans_le h) hAbove)
    calc nearest x ≤ 2 ^ 53 * 2 ^ ulpExponent x := by
          unfold nearest
          gcongr
          exact_mod_cast hLow
      _ = 2 ^ 52 * 2 ^ (ulpExponent x + 1) := by
          rw [zpow_add_one₀ (by norm_num)]
          ring
      _ ≤ 2 ^ 52 * 2 ^ ulpExponent y := by
          gcongr
          · norm_num
          · omega
      _ ≤ nearest y := by
          unfold nearest
          gcongr
          exact_mod_cast hHigh
  · -- the same unit: what is left is rounding to natural numbers
    unfold nearest
    rw [hEq]
    gcongr
    exact roundEven_mono (by gcongr)

/-- A multiple of a power of two with at most 53 digits stays as it is. -/
theorem nearest_mul_zpow {m : ℕ} {e : ℤ} (hm : m < 2 ^ 53) (he : -1074 ≤ e) :
    nearest (m * 2 ^ e) = m * 2 ^ e := by
  obtain rfl | hPos := Nat.eq_zero_or_pos m
  · rw [Nat.cast_zero, zero_mul, nearest_zero]
  have hLess : (m : ℝ) * 2 ^ e < 2 ^ (53 + e) := by
    rw [zpow_add₀ (by norm_num)]
    gcongr
    exact_mod_cast hm
  have hUlp := ulpExponent_le hLess he (by positivity)
  unfold nearest
  -- only `u ≤ e` matters from here on: the number is a whole number of units
  generalize ulpExponent (m * 2 ^ e) = u at hUlp
  obtain ⟨k, rfl⟩ := Int.le.dest hUlp
  have hQuotient : (m : ℝ) * 2 ^ (u + k) / 2 ^ u = ((m * 2 ^ k : ℕ) : ℝ) := by
    rw [zpow_add₀ (by norm_num), zpow_natCast]
    push_cast
    field_simp
  rw [hQuotient, roundEven_natCast, ← hQuotient, div_mul_cancel₀ _ (by positivity)]

theorem nearest_nearest (x : ℝ) : nearest (nearest x) = nearest x := by
  by_cases hx : 0 < x
  · have hLow : -1074 ≤ ulpExponent x := le_max_right _ _
    have hDigits : roundEven (x / 2 ^ ulpExponent x) ≤ 2 ^ 53 :=
      roundEven_le (by exact_mod_cast (div_ulp_lt hx).le)
    obtain hLess | hEq := hDigits.lt_or_eq
    · exact nearest_mul_zpow hLess hLow
    · -- one digit more than a mantissa has, but the last ones are zero
      have hShift : nearest x = ((2 ^ 52 : ℕ) : ℝ) * 2 ^ (ulpExponent x + 1) := by
        rw [nearest, hEq, zpow_add_one₀ (by norm_num)]
        push_cast
        ring
      rw [hShift]
      exact nearest_mul_zpow (by norm_num) (by omega)
  · -- a number that is not positive is rounded to zero or one unit
    have hFloor : ⌊x / 2 ^ ulpExponent x⌋₊ = 0 :=
      Nat.floor_of_nonpos (div_nonpos_of_nonpos_of_nonneg (not_lt.mp hx) (by positivity))
    have hLess : roundEven (x / 2 ^ ulpExponent x) < 2 ^ 53 := by
      have := roundEven_le_floor_add_one (x / 2 ^ ulpExponent x)
      omega
    exact nearest_mul_zpow hLess (le_max_right _ _)

/-! ## Overflow -/

/-- The rounded number; from `2 ^ 1024` on it is infinite. -/
noncomputable def rounded (x : ℝ≥0∞) : ℝ≥0∞ :=
  if x = ⊤ ∨ 2 ^ 1024 ≤ nearest x.toReal then ⊤ else .ofReal (nearest x.toReal)

@[simp]
theorem rounded_top : rounded ⊤ = ⊤ := if_pos (.inl rfl)

@[simp]
theorem rounded_zero : rounded 0 = 0 := by
  rw [rounded, ENNReal.toReal_zero, nearest_zero, ENNReal.ofReal_zero, if_neg]
  simp

theorem rounded_ofReal {x : ℝ} (hx : 0 ≤ x) :
    rounded (.ofReal x) = if 2 ^ 1024 ≤ nearest x then ⊤ else .ofReal (nearest x) := by
  rw [rounded, ENNReal.toReal_ofReal hx]
  simp only [ENNReal.ofReal_ne_top, false_or]

theorem rounded_mono : Monotone rounded := by
  intro x y h
  by_cases hy : y = ⊤
  · rw [hy, rounded_top]
    exact le_top
  have hx : x ≠ ⊤ := ne_top_of_le_ne_top hy h
  have hNearest : nearest x.toReal ≤ nearest y.toReal :=
    nearest_mono ENNReal.toReal_nonneg (ENNReal.toReal_mono hy h)
  unfold rounded
  by_cases hLarge : 2 ^ 1024 ≤ nearest y.toReal
  · rw [if_pos (.inr hLarge : y = ⊤ ∨ _)]
    exact le_top
  · have hSmall : ¬ 2 ^ 1024 ≤ nearest x.toReal := fun hx => hLarge (hx.trans hNearest)
    rw [if_neg (not_or.mpr ⟨hx, hSmall⟩), if_neg (not_or.mpr ⟨hy, hLarge⟩)]
    exact ENNReal.ofReal_le_ofReal hNearest

@[simp]
theorem rounded_rounded (x : ℝ≥0∞) : rounded (rounded x) = rounded x := by
  by_cases hLarge : x = ⊤ ∨ 2 ^ 1024 ≤ nearest x.toReal
  · have hTop : rounded x = ⊤ := if_pos hLarge
    rw [hTop, rounded_top]
  · have hReal : rounded x = .ofReal (nearest x.toReal) := if_neg hLarge
    rw [hReal, rounded_ofReal (nearest_nonneg _), nearest_nearest,
      if_neg (not_or.mp hLarge).2]

/-- A multiple of a power of two. -/
noncomputable def magnitude (m : ℕ) (e : ℤ) : ℝ≥0∞ := .ofReal (m * 2 ^ e)

theorem mul_zpow_lt {m : ℕ} {e : ℤ} (hm : m < 2 ^ 53) (hHigh : e ≤ 971) :
    (m : ℝ) * 2 ^ e < 2 ^ 1024 := by
  calc (m : ℝ) * 2 ^ e < 2 ^ 53 * 2 ^ e := by
        gcongr
        exact_mod_cast hm
    _ ≤ 2 ^ 53 * 2 ^ (971 : ℤ) := by
        gcongr
        norm_num
    _ = 2 ^ 1024 := by
        rw [show (971 : ℤ) = (971 : ℕ) from rfl, zpow_natCast, ← pow_add]

theorem rounded_magnitude {m : ℕ} {e : ℤ} (hm : m < 2 ^ 53) (hLow : -1074 ≤ e)
    (hHigh : e ≤ 971) : rounded (magnitude m e) = magnitude m e := by
  rw [magnitude, rounded_ofReal (by positivity), nearest_mul_zpow hm hLow,
    if_neg (not_le.mpr (mul_zpow_lt hm hHigh))]

/-! ## Errors of rounding -/

/-- The relative error of a rounding: half a unit in the last of 53 digits. -/
noncomputable def roundoff : ℝ := 2 ^ (-53 : ℤ)

/-- The absolute error of a rounding where digits are missing: half the least double. -/
noncomputable def underflow : ℝ := 2 ^ (-1075 : ℤ)

/-! ## Rounding to whole numbers -/

/-- The nearest whole number, a half going up. -/
noncomputable def wholeHalfUp (x : ℝ≥0∞) : ℝ≥0∞ :=
  if x = ⊤ then ⊤ else ⌊x.toReal + 1 / 2⌋₊

@[simp]
theorem wholeHalfUp_top : wholeHalfUp ⊤ = ⊤ := if_pos rfl

theorem wholeHalfUp_ofReal {x : ℝ} (hx : 0 ≤ x) :
    wholeHalfUp (.ofReal x) = ⌊x + 1 / 2⌋₊ := by
  rw [wholeHalfUp, if_neg ENNReal.ofReal_ne_top, ENNReal.toReal_ofReal hx]

theorem wholeHalfUp_mono : Monotone wholeHalfUp := by
  intro x y h
  by_cases hy : y = ⊤
  · rw [hy, wholeHalfUp_top]
    exact le_top
  · have hx : x ≠ ⊤ := ne_top_of_le_ne_top hy h
    have hReal : x.toReal ≤ y.toReal := ENNReal.toReal_mono hy h
    rw [wholeHalfUp, wholeHalfUp, if_neg hx, if_neg hy]
    exact_mod_cast Nat.floor_mono (by linarith)

theorem wholeHalfUp_natCast (n : ℕ) : wholeHalfUp n = n := by
  have hFloor : ⌊(n : ℝ) + 1 / 2⌋₊ = n := by
    rw [Nat.floor_eq_iff (by positivity)]
    constructor <;> linarith
  rw [← ENNReal.ofReal_natCast, wholeHalfUp_ofReal (Nat.cast_nonneg n), hFloor,
    ENNReal.ofReal_natCast]

/-- The nearest whole number to a fraction with a power of two as its divisor. -/
theorem wholeHalfUp_magnitude (m : ℕ) {e : ℤ} (he : e < 0) :
    wholeHalfUp (magnitude m e) =
      ((m + 2 ^ ((-e).toNat - 1)) / 2 ^ (-e).toNat : ℕ) := by
  obtain ⟨k, rfl⟩ : ∃ k : ℕ, e = -(k + 1 : ℕ) := ⟨(-e).toNat - 1, by omega⟩
  have hNat : (-(-((k + 1 : ℕ) : ℤ))).toNat = k + 1 := by omega
  have hSum : (m : ℝ) * 2 ^ (-((k + 1 : ℕ) : ℤ)) + 1 / 2 =
      ((m + 2 ^ k : ℕ) : ℝ) / ((2 ^ (k + 1) : ℕ) : ℝ) := by
    rw [zpow_neg, zpow_natCast]
    push_cast
    field_simp
    ring
  rw [magnitude, wholeHalfUp_ofReal (by positivity), hSum, Nat.floor_div_eq_div, hNat,
    Nat.add_sub_cancel]

/-- A multiple of a power of two without negative exponent is whole. -/
theorem wholeHalfUp_magnitude_of_nonneg (m : ℕ) {e : ℤ} (he : 0 ≤ e) :
    wholeHalfUp (magnitude m e) = magnitude m e := by
  obtain ⟨k, rfl⟩ := Int.eq_ofNat_of_zero_le he
  have hWhole : magnitude m k = (m * 2 ^ k : ℕ) := by
    rw [magnitude, ← ENNReal.ofReal_natCast, zpow_natCast]
    push_cast
    rfl
  rw [hWhole, wholeHalfUp_natCast]

/-! ## Doubles with a sign -/

/-- The mantissas and exponents of doubles, with all 53 digits unless the exponent is the
least. -/
structure Canonical (m : ℕ) (e : ℤ) : Prop where
  lt : m < 2 ^ 53
  least_le : -1074 ≤ e
  full : e = -1074 ∨ 2 ^ 52 ≤ m

/-- A double that a nonnegative number is rounded to, with the sign put on it. -/
def IsRounded (sign : Sign) (x : ℝ) : UnpackedFloat → Prop
  | .zero sign' => sign' = sign ∧ nearest x = 0
  | .finite sign' m e _ => sign' = sign ∧ Canonical m e ∧ nearest x = m * 2 ^ e
  | .infinity _ | .notANumber => False

end DebtGauge.Double
