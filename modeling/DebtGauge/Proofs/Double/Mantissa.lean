import DebtGauge.Proofs.Double.Rounding

/-!
# Rounding of mantissas

Arithmetic on doubles works on a mantissa with an exponent, and notes where between the mantissa
and the next one the exact result lies. The mantissa is shifted to 53 digits, and this note,
which is kept up to date, decides how it is rounded. The outcome is the exact result, rounded
to the nearest double.

Main definitions and results:

* `StandsFor` — the number that a mantissa with its note stands for;
* `isRounded_roundWithAccuracy` — a located number is rounded to the nearest double.
-/

namespace DebtGauge.Double

open Float.Model Float.Model.UnpackedFloat

/-! ## Mantissas with residual digits -/

/-- The mantissa and its residual digits stand for a number. -/
def StandsFor (em : ExtendedMantissa) (y : ℝ) : Prop :=
  Locates em.mantissa y em.accuracy

theorem standsFor_ofMantissaAndAccuracy {m : ℕ} {y : ℝ} {accuracy : Accuracy}
    (h : Locates m y accuracy) :
    StandsFor (.ofMantissaAndAccuracy m accuracy) y := by
  cases accuracy with
  | exact => exact h
  | inexact ordering => cases ordering <;> exact h

theorem StandsFor.roundedMantissa_eq {em : ExtendedMantissa} {y : ℝ} (h : StandsFor em y) :
    em.roundedMantissa = roundEven y :=
  h.roundToNearestEven_eq

theorem StandsFor.shiftRightOne {em : ExtendedMantissa} {y : ℝ} (h : StandsFor em y) :
    StandsFor em.shiftRightOne (y / 2) := by
  obtain ⟨m, roundBit, stickyBit⟩ := em
  -- The last digit of the mantissa becomes the round bit, the old round bit goes into the sticky
  -- bit: one linear goal for each digit and each pair of old bits.
  obtain ⟨half, rfl | rfl⟩ := Nat.even_or_odd' m
  · have hHalf : 2 * half / 2 = half := by omega
    have hBit : (2 * half % 2 != 0) = false := by simp
    unfold StandsFor ExtendedMantissa.shiftRightOne at *
    rw [hHalf, hBit]
    cases roundBit <;> cases stickyBit <;>
      simp only [ExtendedMantissa.accuracy, Locates, Bool.or_false, Bool.or_true] at h ⊢ <;>
      push_cast at h <;> grind
  · have hHalf : (2 * half + 1) / 2 = half := by omega
    have hBit : ((2 * half + 1) % 2 != 0) = true := by simp
    unfold StandsFor ExtendedMantissa.shiftRightOne at *
    rw [hHalf, hBit]
    cases roundBit <;> cases stickyBit <;>
      simp only [ExtendedMantissa.accuracy, Locates, Bool.or_false, Bool.or_true] at h ⊢ <;>
      push_cast at h <;> grind

theorem StandsFor.shiftRight {em : ExtendedMantissa} {y : ℝ} (h : StandsFor em y) (places : ℕ) :
    StandsFor (em >>> places) (y / 2 ^ places) := by
  show StandsFor (places.repeat ExtendedMantissa.shiftRightOne em) _
  induction places with
  | zero =>
    rw [pow_zero, div_one]
    exact h
  | succ places ih =>
    rw [pow_succ, ← div_div]
    exact ih.shiftRightOne

/-! ## The exponent to shift to -/

/-- The exponent with which a mantissa has 53 digits, or the least exponent. -/
def target (m : ℕ) (e : ℤ) : ℤ := max (m.log2 + 1 + e - 53) (-1074)

theorem targetExponent_eq (m : ℕ) (e : ℤ) :
    Format.binary64.targetExponent (totalExponent m e) = target m e := rfl

theorem lt_two_pow_log2 (m : ℕ) : m < 2 ^ (m.log2 + 1) := Nat.lt_log2_self

variable {m : ℕ} {e : ℤ} {y : ℝ} {accuracy : Accuracy}

/-- A located number has at most 53 digits in units of the target. -/
theorem Locates.div_target_lt (h : Locates m y accuracy) :
    y * 2 ^ e / 2 ^ target m e < 2 ^ 53 := by
  have hUpper : y < 2 ^ (m.log2 + 1) := by
    have hNext : (m + 1 : ℝ) ≤ 2 ^ (m.log2 + 1) := by exact_mod_cast lt_two_pow_log2 m
    exact h.bounds.2.trans_le hNext
  have hTarget : ((m.log2 + 1 : ℕ) : ℤ) + e ≤ 53 + target m e := by
    unfold target
    omega
  rw [div_lt_iff₀ (by positivity)]
  calc y * 2 ^ e < 2 ^ (m.log2 + 1) * 2 ^ e := by gcongr
    _ = (2 : ℝ) ^ (((m.log2 + 1 : ℕ) : ℤ) + e) := by
      rw [zpow_add₀ (by norm_num), zpow_natCast]
    _ ≤ (2 : ℝ) ^ (53 + target m e) := zpow_le_zpow_right₀ (by norm_num) hTarget
    _ = 2 ^ 53 * 2 ^ target m e := by
      rw [zpow_add₀ (by norm_num)]
      norm_cast

/-- Above the least exponent a located number has 53 digits in units of the target. -/
theorem Locates.le_div_target (h : Locates m y accuracy) (hTarget : -1074 < target m e)
    (hm : m ≠ 0) : 2 ^ 52 ≤ y * 2 ^ e / 2 ^ target m e := by
  have hLower : (2 : ℝ) ^ m.log2 ≤ y := by
    have hPow : (2 : ℝ) ^ m.log2 ≤ m := by exact_mod_cast Nat.log2_self_le hm
    exact hPow.trans h.bounds.1
  have hExponent : 52 + target m e = (m.log2 : ℤ) + e := by
    unfold target at hTarget ⊢
    omega
  rw [le_div_iff₀ (by positivity)]
  calc (2 : ℝ) ^ 52 * 2 ^ target m e = 2 ^ (52 + target m e) := by
        rw [zpow_add₀ (by norm_num)]
        norm_cast
    _ = 2 ^ m.log2 * 2 ^ e := by
      rw [hExponent, zpow_add₀ (by norm_num), zpow_natCast]
    _ ≤ y * 2 ^ e := by gcongr

/-- A mantissa that is shifted to more than the least exponent is not zero. -/
theorem ne_zero_of_target (hShift : e ≤ target m e) (hTarget : -1074 < target m e) : m ≠ 0 := by
  rintro rfl
  have hLog : Nat.log2 0 = 0 := Nat.log2_zero
  unfold target at hShift hTarget
  omega

/-- The target is the exponent of the last place of a located number. -/
theorem Locates.nearest_eq (h : Locates m y accuracy) (hShift : e ≤ target m e) :
    nearest (y * 2 ^ e) = roundEven (y * 2 ^ e / 2 ^ target m e) * 2 ^ target m e := by
  have hNonneg : 0 ≤ y := (Nat.cast_nonneg m).trans h.bounds.1
  obtain rfl | hPos := hNonneg.eq_or_lt
  · have hZero : roundEven 0 = 0 := by exact_mod_cast roundEven_natCast 0
    rw [zero_mul, nearest_zero, zero_div, hZero, Nat.cast_zero, zero_mul]
  suffices hUlp : ulpExponent (y * 2 ^ e) = target m e by rw [nearest, hUlp]
  -- `≤` because the number has at most 53 digits in units of the target, `≥` because it has them
  -- all unless the target is the least exponent
  have hLow : -1074 ≤ target m e := le_max_right _ _
  have hAtMost : ulpExponent (y * 2 ^ e) ≤ target m e := by
    refine ulpExponent_le ?_ hLow (by positivity)
    have hDigits := h.div_target_lt (e := e)
    rw [div_lt_iff₀ (by positivity)] at hDigits
    rw [zpow_add₀ (by norm_num)]
    exact_mod_cast hDigits
  refine le_antisymm hAtMost ?_
  obtain hLeast | hAbove := hLow.eq_or_lt
  · rw [← hLeast]
    exact le_max_right _ _
  have hDigits := h.le_div_target hAbove (ne_zero_of_target hShift hAbove)
  rw [le_div_iff₀ (by positivity)] at hDigits
  have hLog : 52 + target m e ≤ Int.log 2 (y * 2 ^ e) := by
    refine (Int.zpow_le_iff_le_log (by decide) (by positivity)).mp ?_
    rw [Nat.cast_ofNat, zpow_add₀ (by norm_num)]
    exact_mod_cast hDigits
  exact le_max_of_le_left (by omega)

/-! ## Rounding -/

theorem isRounded_dite {sign : Sign} {x : ℝ} (hCanonical : m ≠ 0 → Canonical m e)
    (hNearest : nearest x = m * 2 ^ e) :
    IsRounded sign x (if hZero : m = 0 then .zero sign
      else .finite sign m e (Nat.pos_of_ne_zero hZero)) := by
  by_cases hZero : m = 0
  · rw [dif_pos hZero]
    refine ⟨rfl, ?_⟩
    rw [hNearest, hZero, Nat.cast_zero, zero_mul]
  · rw [dif_neg hZero]
    exact ⟨rfl, hCanonical hZero, hNearest⟩

theorem shiftToTargetExponent_eq (m : ℕ) (e : ℤ) (accuracy : Accuracy) :
    shiftToTargetExponent Format.binary64 m e accuracy =
      (ExtendedMantissa.ofMantissaAndAccuracy m accuracy >>> (target m e - e).toNat,
        e + (target m e - e).toNat) := rfl

/-- A mantissa that was rounded up to one digit more is shifted by one place. -/
theorem isRounded_of_rounded {sign : Sign} {x : ℝ} {r : ℕ} {t : ℤ} (hr : r ≤ 2 ^ 53)
    (hLow : -1074 ≤ t) (hFull : t = -1074 ∨ 2 ^ 52 ≤ r) (hNearest : nearest x = r * 2 ^ t) :
    let final := shiftToTargetExponent Format.binary64 r t .exact
    IsRounded sign x (if hZero : final.1.mantissa = 0 then .zero sign
      else .finite sign final.1.mantissa final.2 (Nat.pos_of_ne_zero hZero)) := by
  intro final
  obtain hLess | rfl := hr.lt_or_eq
  · -- at most 53 digits: there is nothing to shift
    have hStays : target r t ≤ t := by
      have hLog : r.log2 < 53 := by
        by_cases hZero : r = 0
        · rw [hZero, Nat.log2_zero]
          decide
        · exact (Nat.log2_lt hZero).mpr hLess
      unfold target
      omega
    have hFinal : final = (⟨r, false, false⟩, t) := by
      have hNone : (target r t - t).toNat = 0 := by omega
      have hEq := shiftToTargetExponent_eq r t .exact
      rw [hNone, Nat.cast_zero, add_zero] at hEq
      exact hEq
    rw [hFinal]
    exact isRounded_dite (fun _ => ⟨hLess, hLow, hFull⟩) hNearest
  · -- rounded up to `2 ^ 53`: one place, and the digit that falls out is zero
    have hFinal : final = (⟨2 ^ 52, false, false⟩, t + 1) := by
      have hLog : Nat.log2 (2 ^ 53) = 53 := Nat.log2_two_pow
      have hOne : (target (2 ^ 53) t - t).toNat = 1 := by
        unfold target
        rw [hLog]
        omega
      have hEq := shiftToTargetExponent_eq (2 ^ 53) t .exact
      rw [hOne] at hEq
      exact hEq
    rw [hFinal]
    refine isRounded_dite (fun _ => ⟨by norm_num, by dsimp only; omega, .inr le_rfl⟩) ?_
    rw [hNearest]
    push_cast
    rw [zpow_add_one₀ (by norm_num)]
    ring

/-- A located number is rounded to the nearest double, if its mantissa has digits enough. -/
theorem isRounded_roundWithAccuracy (sign : Sign) (h : Locates m y accuracy)
    (hShift : e ≤ target m e) :
    IsRounded sign (y * 2 ^ e) (roundWithAccuracy Format.binary64 sign m e accuracy) := by
  obtain ⟨places, hPlaces⟩ := Int.le.dest hShift
  have hScaled : y * 2 ^ e / 2 ^ target m e = y / 2 ^ places := by
    rw [← hPlaces, zpow_add₀ (by norm_num), zpow_natCast]
    field_simp
  have hFirst : shiftToTargetExponent Format.binary64 m e accuracy =
      (ExtendedMantissa.ofMantissaAndAccuracy m accuracy >>> places, target m e) := by
    have hNat : (target m e - e).toNat = places := by omega
    rw [shiftToTargetExponent_eq, hNat, hPlaces]
  have hRounded := ((standsFor_ofMantissaAndAccuracy h).shiftRight places).roundedMantissa_eq
  have hNearest := h.nearest_eq hShift
  have hUpper := h.div_target_lt (e := e)
  rw [hScaled] at hNearest hUpper
  unfold roundWithAccuracy
  rw [hFirst]
  dsimp only
  rw [hRounded]
  refine isRounded_of_rounded ?_ (le_max_right _ _) ?_ hNearest
  · -- at most 53 digits, or the power of two after them
    exact roundEven_le (by exact_mod_cast hUpper.le)
  · -- all 53 digits above the least exponent
    by_cases hLeast : target m e = -1074
    · exact .inl hLeast
    have hAbove : -1074 < target m e := lt_of_le_of_ne (le_max_right _ _) (Ne.symm hLeast)
    have hLower := h.le_div_target hAbove (ne_zero_of_target hShift hAbove)
    rw [hScaled] at hLower
    exact .inr (le_roundEven (by exact_mod_cast hLower))

end DebtGauge.Double
