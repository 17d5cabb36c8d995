import DebtGauge.Proofs.Double.Arithmetic

/-!
# Counts as doubles

A count is written as the double nearest to it: a small one by a conversion that is exact, a
larger one as the product with a power of ten. Doubles end near `2 ^ 1024`, so that the double of
a count that fits a machine word, or even several of them, is a finite number.

Main results:

* `represents_ofNat`, `represents_natCast` — the double of a count stands for the count, rounded, and
  for the count itself if that is small;
* `isFinite_ofNat_of_lt`, `isFinite_ofNat` — the double of a count below `2 ^ 128` is finite, and
  so is that of one below `2 ^ 64`.
-/

namespace DebtGauge.Double

open Float.Model Float.Model.UnpackedFloat
open scoped ENNReal

theorem ofNat_of_lt {n : Nat} (hn : n < 2 ^ 53) :
    Float.ofNat n = n.toUInt64.toFloat * Float.ofBits 0x3FF0000000000000 := by
  show Float.ofScientific n false 0 = _
  unfold Float.ofScientific
  rw [dif_pos ⟨hn, by decide⟩]
  rfl

theorem ofNat_of_ge {n : Nat} (hn : ¬ n < 2 ^ 53) :
    Float.ofNat n = Float.ofModel (Float.Model.ofScientific n 0) := by
  show Float.ofScientific n false 0 = _
  unfold Float.ofScientific
  rw [dif_neg fun h => hn h.1]
  rfl

theorem yields_ofNat (n : ℕ) : Yields (UnpackedFloat.ofNat Format.binary64 n) (rounded n) := by
  obtain rfl | hPos := Nat.eq_zero_or_pos n
  · rw [Nat.cast_zero]
    exact yields_zero .positive
  · have hRounded := isRounded_normalize_of_pos (n := (n : ℤ)) (by omega) 0 .positive
    rw [Int.cast_natCast, zpow_zero, mul_one] at hRounded
    have hYields := hRounded.yields (Nat.cast_nonneg n)
    rwa [ENNReal.ofReal_natCast] at hYields

/-- The double one, with which a small count is multiplied. -/
theorem represents_one : Represents (Float.ofBits 0x3FF0000000000000) 1 where
  zero_le := by decide
  value_eq := by
    show ENNReal.ofReal (((2 ^ 52 : ℕ) : ℝ) * 2 ^ (-52 : ℤ)) = 1
    have hOne : ((2 ^ 52 : ℕ) : ℝ) * 2 ^ (-52 : ℤ) = 1 := by norm_num
    rw [hOne, ENNReal.ofReal_one]

/-- The conversion of a machine word is rounded, and so is its product with one. -/
theorem represents_ofNat_of_lt {n : ℕ} (hn : n < 2 ^ 53) :
    Represents (Float.ofNat n) (rounded n) := by
  have hWord : n.toUInt64.toNat = n := by
    rw [UInt64.toNat_ofNat']
    omega
  have hYields : Yields (UnpackedFloat.ofUInt64 Format.binary64 n.toUInt64) (rounded n) := by
    unfold UnpackedFloat.ofUInt64
    rw [hWord]
    exact yields_ofNat n
  have hConverted : Represents n.toUInt64.toFloat (rounded n) := hYields.represents
  have hProduct := hConverted.mul represents_one ENNReal.one_ne_top (.inr one_ne_zero)
  rw [mul_one, hConverted.rounded_eq] at hProduct
  rwa [ofNat_of_lt hn]

/-- A count is shifted by 53 places and multiplied by the power of ten with exponent zero. -/
theorem yields_ofScientific {n : ℕ} (hPos : 0 < n) :
    Yields (UnpackedFloat.ofScientific Format.binary64 n 0) (rounded n) := by
  have hShifted : 0 < n <<< 53 := by
    rw [Nat.shiftLeft_eq]
    positivity
  have hOne : 0 < 10 ^ (0 : ℤ).toNat := by decide
  have hScientific : UnpackedFloat.ofScientific Format.binary64 n 0 =
      UnpackedFloat.mul Format.binary64 (.finite .positive (n <<< 53) (-53) hShifted)
        (.finite .positive (10 ^ (0 : ℤ).toNat) 0 hOne) := by
    have hExponents : (2 : ℤ) ^ Format.binary64.exponentBits = 2048 := rfl
    have hHigh : ¬ (0 : ℤ) > 2048 := by decide
    have hLow : ¬ (0 : ℤ) < -(2048 + (n.log2 : ℤ)) := by omega
    unfold UnpackedFloat.ofScientific
    rw [hExponents, dif_neg hPos.ne', if_neg hHigh, if_neg hLow, if_pos le_rfl]
    rfl
  have hDigits : (-53 : ℤ) + 0 ≤ -1074 ∨ 2 ^ 52 ≤ n <<< 53 * 10 ^ (0 : ℤ).toNat := by
    right
    rw [Nat.shiftLeft_eq, Int.toNat_zero]
    omega
  have hValue : magnitude (n <<< 53) (-53) * magnitude (10 ^ (0 : ℤ).toNat) 0 = n := by
    rw [magnitude, magnitude, Nat.shiftLeft_eq, Int.toNat_zero,
      ← ENNReal.ofReal_mul (by positivity), ← ENNReal.ofReal_natCast]
    congr 1
    push_cast
    norm_num
    ring
  rw [hScientific, ← hValue]
  exact yields_mul_finite hDigits hShifted hOne

/-- The double of a count stands for the count, rounded. -/
theorem represents_ofNat (n : ℕ) : Represents (Float.ofNat n) (rounded n) := by
  by_cases hSmall : n < 2 ^ 53
  · exact represents_ofNat_of_lt hSmall
  · rw [ofNat_of_ge hSmall]
    exact (yields_ofScientific (by omega)).represents

/-- A count that has no more digits than a mantissa is a double itself. -/
theorem rounded_natCast {n : ℕ} (hn : n < 2 ^ 53) : rounded n = n := by
  have hMagnitude : (n : ℝ≥0∞) = magnitude n 0 := by
    rw [magnitude, zpow_zero, mul_one, ENNReal.ofReal_natCast]
  rw [hMagnitude]
  exact rounded_magnitude hn (by decide) (by decide)

/-- The double of such a count stands for the count itself. -/
theorem represents_natCast {n : ℕ} (hn : n < 2 ^ 53) : Represents (Float.ofNat n) n :=
  rounded_natCast hn ▸ represents_ofNat n

/-- The double of a count that fits two machine words is finite. -/
theorem isFinite_ofNat_of_lt {n : ℕ} (hn : n < 2 ^ 128) : (Float.ofNat n).isFinite = true := by
  -- `2 ^ 128` is a double itself, so that rounding does not carry a smaller count past it
  have hBound : (n : ℝ≥0∞) ≤ magnitude 1 128 := by
    have hReal : (n : ℝ) ≤ (1 : ℕ) * 2 ^ (128 : ℤ) := by
      rw [Nat.cast_one, one_mul]
      exact_mod_cast hn.le
    rw [magnitude, ← ENNReal.ofReal_natCast]
    exact ENNReal.ofReal_le_ofReal hReal
  have hFinite : rounded (magnitude 1 128) ≠ ⊤ := by
    rw [rounded_magnitude (by decide) (by decide) (by decide)]
    exact magnitude_ne_top 1 128
  exact (represents_ofNat n).isFinite_iff.mpr (ne_top_of_le_ne_top hFinite (rounded_mono hBound))

/-- The double of a count that fits a machine word is finite. -/
theorem isFinite_ofNat {n : ℕ} (hn : n < 2 ^ 64) : (Float.ofNat n).isFinite = true :=
  isFinite_ofNat_of_lt (hn.trans (Nat.pow_lt_pow_right (by decide) (by decide)))

end DebtGauge.Double
