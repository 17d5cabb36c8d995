import DebtGauge.Decimal.Binary
import DebtGauge.Proofs.Double.Count

/-!
# Whole numbers of doubles

A double is rounded to a whole number, or a whole number is read from it, by way of its decoded
bits, which say the same as the unpacked double does.

Main definitions and results:

* `ofFloat_eq` — the decoded bits of a double;
* `Represents.roundHalfAway` — a double is rounded to the nearest whole number;
* `wholeNumber` — the whole part of a double, which is the number itself where that is whole.
-/

namespace DebtGauge.Double

open Float.Model Float.Model.UnpackedFloat
open scoped ENNReal

/-! ## Decoded bits -/

open Decimal

/-- A sign as the decoded bits give it. -/
def isNegative : Sign → Bool
  | .negative => true
  | .positive => false

/-- What the decoded bits say of an unpacked double. -/
def readingOf : UnpackedFloat → Reading
  | .notANumber => .notANumber
  | .infinity sign => .infinite (isNegative sign)
  | .zero sign => .finite (isNegative sign) 0 leastExponent
  | .finite sign m e _ => .finite (isNegative sign) m e

section Fields

variable (word : BitVec Format.binary64.numBits)

theorem exponentField_eq : exponentField word = word.toNat / 2 ^ 52 % 2 ^ 11 := by
  simp [exponentField, unpackExponent, Nat.shiftRight_eq_div_pow]

theorem mantissaField_eq : mantissaField word = word.toNat % 2 ^ 52 := by
  simp [mantissaField, unpackMantissa, Nat.shiftRight_eq_div_pow]

theorem isNegative_signField :
    isNegative (signField word) = decide (2 ^ 11 ≤ word.toNat / 2 ^ 52 % 2 ^ 12) := by
  have hSign : (unpackSign word).toNat = word.toNat / 2 ^ 63 % 2 := by
    simp [unpackSign, Nat.shiftRight_eq_div_pow]
  have hBound : word.toNat < 2 ^ 64 := word.isLt
  unfold signField Sign.ofBitVec
  by_cases hBit : unpackSign word = 0#1
  · have hNat : (unpackSign word).toNat = 0 := by rw [hBit]; rfl
    rw [if_pos hBit]
    symm
    exact decide_eq_false (by omega)
  · have hNat : (unpackSign word).toNat ≠ 0 := fun hZero => hBit (BitVec.toNat_inj.mp hZero)
    rw [if_neg hBit]
    symm
    exact decide_eq_true (by omega)

/-- The decoded bits of a word say the same as the unpacked double. -/
theorem ofBits_eq : Reading.ofBits word.toNat = readingOf (unpack Format.binary64 word) := by
  have hFields : Reading.ofBits word.toNat =
      if exponentField word = 2047 then
        if mantissaField word = 0 then .infinite (isNegative (signField word)) else .notANumber
      else if exponentField word = 0 then
        .finite (isNegative (signField word)) (mantissaField word) leastExponent
      else
        .finite (isNegative (signField word)) (mantissaField word + 2 ^ 52)
          (leastExponent + (exponentField word - 1 : ℕ)) := by
    rw [exponentField_eq, mantissaField_eq, isNegative_signField]
    rfl
  have hLeast : leastExponent = -1074 := rfl
  rw [hFields]
  by_cases hOnes : exponentField word = 2047
  · rw [if_pos hOnes]
    by_cases hZero : mantissaField word = 0
    · rw [if_pos hZero, unpack_infinity hOnes hZero, readingOf]
    · rw [if_neg hZero, unpack_notANumber hOnes hZero, readingOf]
  rw [if_neg hOnes]
  by_cases hNone : exponentField word = 0
  · rw [if_pos hNone]
    by_cases hZero : mantissaField word = 0
    · rw [unpack_zero hNone hZero, hZero, readingOf]
    · rw [unpack_subnormal hNone hZero, readingOf, hLeast]
  · rw [if_neg hNone, unpack_normal hNone hOnes, readingOf, hLeast]
    congr 1
    omega

end Fields

/-- The decoded bits of a double say the same as the unpacked double. -/
theorem ofFloat_eq (a : Float) : Reading.ofFloat a = readingOf a.toModel.unpack :=
  ofBits_eq a.toModel.toBits.toBitVec

/-! ## The nearest whole number -/

/-- A double is rounded to the nearest whole number. -/
theorem Represents.roundHalfAway {a : Float} {x : ℝ≥0∞} (h : Represents a x) :
    Represents (Decimal.roundHalfAway a) (rounded (wholeHalfUp x)) := by
  have hReading := ofFloat_eq a
  obtain ⟨sign, hUnpack⟩ | ⟨m, e, hPos, hUnpack⟩ | hUnpack := (zero_le_iff.mp h.zero_le).eq_or
  · -- zero keeps its sign, and both zeros stand for zero
    have hx : x = 0 := by rw [← h.value_eq, value, hUnpack, size_zero]
    have hWhole : wholeHalfUp 0 = 0 := by exact_mod_cast wholeHalfUp_natCast 0
    rw [hUnpack, readingOf] at hReading
    unfold Decimal.roundHalfAway
    have hFraction : ¬ 0 ≤ leastExponent := by decide
    have hNearest (k : ℕ) (hk : 0 < k) : (0 + Nat.pow 2 (k - 1)) / Nat.pow 2 k = 0 := by
      rw [Nat.zero_add]
      exact Nat.div_eq_of_lt (Nat.pow_lt_pow_right (by decide) (by omega))
    rw [hReading, hx, hWhole, rounded_zero]
    dsimp only
    rw [if_neg hFraction, hNearest _ (by decide)]
    cases sign with
    | negative => exact ⟨by decide, rfl⟩
    | positive => exact ⟨by decide, rfl⟩
  · have hx : x = magnitude m e := by rw [← h.value_eq, value, hUnpack, size_finite]
    rw [hUnpack, readingOf] at hReading
    unfold Decimal.roundHalfAway
    rw [hReading]
    dsimp only
    by_cases hWhole : 0 ≤ e
    · -- whole already: the double itself is returned
      rw [if_pos hWhole, hx, wholeHalfUp_magnitude_of_nonneg m hWhole, ← hx, h.rounded_eq]
      exact h
    · -- a fraction: the quotient of the mantissa, a half added to it, is converted back
      rw [if_neg hWhole, hx, wholeHalfUp_magnitude m (not_le.mp hWhole)]
      exact represents_ofNat _
  · -- infinity is returned as it is
    have hx : x = ⊤ := by rw [← h.value_eq, value, hUnpack, size_infinity]
    rw [hUnpack, readingOf] at hReading
    unfold Decimal.roundHalfAway
    rw [hReading, hx, wholeHalfUp_top, rounded_top, ← hx]
    exact h

/-! ## Whole numbers -/

/-- The whole part of a double. -/
def wholeNumber (a : Float) : ℕ :=
  match Reading.ofFloat a with
  | .finite _ significand exponent =>
    significand * (powerOfTwo exponent).1 / (powerOfTwo exponent).2
  | _ => 0

/-- A whole number with at most 53 digits is read back from its double. -/
theorem wholeNumber_ofNat {n : ℕ} (hn : n < 2 ^ 53) : wholeNumber (Float.ofNat n) = n := by
  have hRepresents := represents_natCast hn
  have hReading := ofFloat_eq (Float.ofNat n)
  have hValue := hRepresents.value_eq
  unfold value at hValue
  unfold wholeNumber
  obtain ⟨sign, hUnpack⟩ | ⟨m, e, hPos, hUnpack⟩ | hUnpack :=
    (zero_le_iff.mp hRepresents.zero_le).eq_or
  · rw [hUnpack, size_zero] at hValue
    have hZero : n = 0 := by exact_mod_cast hValue.symm
    rw [hReading, hUnpack, readingOf, hZero]
    dsimp only
    rw [Nat.zero_mul, Nat.zero_div]
  · rw [hUnpack, size_finite] at hValue
    have hReal : (m : ℝ) * 2 ^ e = n := by
      have hEq := congrArg ENNReal.toReal hValue
      rwa [magnitude, ENNReal.toReal_ofReal (by positivity), ENNReal.toReal_natCast] at hEq
    -- the same without a negative exponent
    have hExponent : ((e.toNat : ℕ) : ℤ) = e + (-e).toNat := by omega
    have hWhole : m * 2 ^ e.toNat = n * 2 ^ (-e).toNat := by
      have hPowers : (m : ℝ) * 2 ^ e.toNat = n * 2 ^ (-e).toNat := by
        rw [← hReal, mul_assoc, ← zpow_natCast, ← zpow_natCast, ← zpow_add₀ two_ne_zero, hExponent]
      exact_mod_cast hPowers
    rw [hReading, hUnpack, readingOf]
    show m * 2 ^ e.toNat / 2 ^ (-e).toNat = n
    rw [hWhole]
    exact Nat.mul_div_cancel n (Nat.two_pow_pos _)
  · rw [hUnpack, size_infinity] at hValue
    exact absurd hValue.symm (ENNReal.natCast_ne_top n)

end DebtGauge.Double
