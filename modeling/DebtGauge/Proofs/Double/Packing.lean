import DebtGauge.Proofs.Double.Mantissa

/-!
# Doubles as words

A double is stored as a word of 64 bits. What is read from a word has one of the mantissas and
exponents that doubles have, and what has them is read back from the word it is stored in, except
that exponents beyond the largest one become infinite.

Main definitions and results:

* `IsDouble` — the unpacked numbers that words stand for;
* `overflow` — a number whose exponent is too large becomes infinite;
* `isDouble_unpack`, `unpack_pack` — what is read from words.
-/

namespace DebtGauge.Double

open Float.Model Float.Model.UnpackedFloat

/-- A finite number has a mantissa and an exponent that doubles have, the exponent aside which
may be too large. -/
def IsCanonical : UnpackedFloat → Prop
  | .finite _ m e _ => Canonical m e
  | _ => True

/-- The unpacked numbers that words stand for. -/
def IsDouble : UnpackedFloat → Prop
  | .finite _ m e _ => Canonical m e ∧ e ≤ 971
  | _ => True

/-- A finite number with too large an exponent becomes infinite. -/
def overflow : UnpackedFloat → UnpackedFloat
  | .finite sign m e hPos => if 971 < e then .infinity sign else .finite sign m e hPos
  | f => f

/-! ## Reading a word -/

/-- The digits of a word that make its exponent. -/
def exponentField (word : BitVec Format.binary64.numBits) : ℕ := (unpackExponent word).toNat

/-- The digits of a word that make its mantissa. -/
def mantissaField (word : BitVec Format.binary64.numBits) : ℕ := (unpackMantissa word).toNat

/-- The sign of a word. -/
def signField (word : BitVec Format.binary64.numBits) : Sign := .ofBitVec (unpackSign word)

variable {word : BitVec Format.binary64.numBits}

theorem exponentField_lt (word : BitVec Format.binary64.numBits) : exponentField word < 2048 :=
  (unpackExponent word).isLt

theorem mantissaField_lt (word : BitVec Format.binary64.numBits) : mantissaField word < 2 ^ 52 :=
  (unpackMantissa word).isLt

theorem unpackExponent_eq_ones_iff : unpackExponent word = -1#_ ↔ exponentField word = 2047 :=
  BitVec.toNat_inj.symm

theorem unpackExponent_eq_zero_iff : unpackExponent word = 0#_ ↔ exponentField word = 0 :=
  BitVec.toNat_inj.symm

theorem unpackMantissa_eq_zero_iff : unpackMantissa word = 0#_ ↔ mantissaField word = 0 :=
  BitVec.toNat_inj.symm

theorem unpack_infinity (hExponent : exponentField word = 2047) (hMantissa : mantissaField word = 0) :
    unpack Format.binary64 word = .infinity (signField word) := by
  unfold UnpackedFloat.unpack
  dsimp only
  rw [if_pos (unpackExponent_eq_ones_iff.mpr hExponent),
    if_pos (unpackMantissa_eq_zero_iff.mpr hMantissa)]
  rfl

theorem unpack_notANumber (hExponent : exponentField word = 2047)
    (hMantissa : mantissaField word ≠ 0) : unpack Format.binary64 word = .notANumber := by
  unfold UnpackedFloat.unpack
  dsimp only
  rw [if_pos (unpackExponent_eq_ones_iff.mpr hExponent),
    if_neg (mt unpackMantissa_eq_zero_iff.mp hMantissa)]

theorem unpack_zero (hExponent : exponentField word = 0) (hMantissa : mantissaField word = 0) :
    unpack Format.binary64 word = .zero (signField word) := by
  have hFinite : exponentField word ≠ 2047 := by omega
  unfold UnpackedFloat.unpack
  dsimp only
  rw [if_neg (mt unpackExponent_eq_ones_iff.mp hFinite),
    if_pos (unpackExponent_eq_zero_iff.mpr hExponent),
    dif_pos (unpackMantissa_eq_zero_iff.mpr hMantissa)]
  rfl

/-- With the least exponent the mantissa is the stored one. -/
theorem unpack_subnormal (hExponent : exponentField word = 0) (hMantissa : mantissaField word ≠ 0) :
    unpack Format.binary64 word =
      .finite (signField word) (mantissaField word) (-1074) (Nat.pos_of_ne_zero hMantissa) := by
  have hFinite : exponentField word ≠ 2047 := by omega
  unfold UnpackedFloat.unpack
  dsimp only
  rw [if_neg (mt unpackExponent_eq_ones_iff.mp hFinite),
    if_pos (unpackExponent_eq_zero_iff.mpr hExponent),
    dif_neg (mt unpackMantissa_eq_zero_iff.mp hMantissa)]
  rw [UnpackedFloat.finite.injEq]
  refine ⟨rfl, rfl, ?_⟩
  show (exponentField word : ℤ) - (1023 + 52) + 1 = -1074
  omega

/-- With another exponent the mantissa has a leading digit that is not stored. -/
theorem unpack_normal (hExponent : exponentField word ≠ 0) (hFinite : exponentField word ≠ 2047) :
    unpack Format.binary64 word =
      .finite (signField word) (mantissaField word + 2 ^ 52) (exponentField word - 1075)
        (by omega) := by
  have hLeading : (1#1 ++ unpackMantissa word).toNat = mantissaField word + 2 ^ 52 := by
    rw [BitVec.toNat_append, ← Nat.shiftLeft_add_eq_or_of_lt (unpackMantissa word).isLt]
    exact Nat.add_comm _ _
  unfold UnpackedFloat.unpack
  dsimp only
  rw [if_neg (mt unpackExponent_eq_ones_iff.mp hFinite),
    if_neg (mt unpackExponent_eq_zero_iff.mp hExponent)]
  rw [UnpackedFloat.finite.injEq]
  exact ⟨rfl, hLeading, rfl⟩

/-- What is read from a word has a mantissa and an exponent that doubles have. -/
theorem isDouble_unpack (word : BitVec Format.binary64.numBits) :
    IsDouble (unpack Format.binary64 word) := by
  have hExponent := exponentField_lt word
  have hMantissa := mantissaField_lt word
  by_cases hOnes : exponentField word = 2047
  · by_cases hZero : mantissaField word = 0
    · rw [unpack_infinity hOnes hZero]
      trivial
    · rw [unpack_notANumber hOnes hZero]
      trivial
  by_cases hLeast : exponentField word = 0
  · by_cases hZero : mantissaField word = 0
    · rw [unpack_zero hLeast hZero]
      trivial
    · -- the least exponent, with less than 53 digits
      rw [unpack_subnormal hLeast hZero]
      exact ⟨⟨by omega, le_rfl, .inl rfl⟩, by decide⟩
  · -- a leading digit, which makes 53
    rw [unpack_normal hLeast hOnes]
    exact ⟨⟨by omega, by omega, .inr (by omega)⟩, by omega⟩

/-! ## Writing a word -/

section Components

variable (sign : Sign) (exponent : BitVec 11) (mantissa : BitVec 52)

@[simp]
theorem exponentField_packComponents :
    exponentField (packComponents Format.binary64 sign exponent mantissa) = exponent.toNat := by
  rw [exponentField, unpackExponent_packComponents]

@[simp]
theorem mantissaField_packComponents :
    mantissaField (packComponents Format.binary64 sign exponent mantissa) = mantissa.toNat := by
  rw [mantissaField, unpackMantissa_packComponents]

@[simp]
theorem signField_packComponents :
    signField (packComponents Format.binary64 sign exponent mantissa) = sign := by
  have hBit : (sign.toBitVec ++ exponent ++ mantissa).getLsbD 63 = sign.toBitVec.getLsbD 0 := by
    rw [BitVec.getLsbD_append, BitVec.getLsbD_append]
    rfl
  have hSign : unpackSign (packComponents Format.binary64 sign exponent mantissa) =
      sign.toBitVec := by
    ext i hi
    obtain rfl : i = 0 := by omega
    show ((sign.toBitVec ++ exponent ++ mantissa).extractLsb' 63 1).getLsbD 0 = _
    rw [BitVec.getLsbD_extractLsb', hBit]
    rfl
  rw [signField, hSign]
  cases sign <;> rfl

end Components

theorem unpack_packedInfinity (sign : Sign) :
    unpack Format.binary64 (packedInfinity Format.binary64 sign) = .infinity sign := by
  unfold packedInfinity
  rw [unpack_infinity, signField_packComponents]
  · exact exponentField_packComponents ..
  · exact mantissaField_packComponents ..

theorem unpack_packedZero (sign : Sign) :
    unpack Format.binary64 (packedZero Format.binary64 sign) = .zero sign := by
  unfold packedZero
  rw [unpack_zero, signField_packComponents]
  · exact exponentField_packComponents ..
  · exact mantissaField_packComponents ..

/-- A full mantissa is stored without its leading digit. -/
theorem unpack_pack_normal {m : ℕ} {e : ℤ} (sign : Sign) (hPos : 0 < m) (hLess : m < 2 ^ 53)
    (hNormal : 2 ^ 52 ≤ m) (hLow : -1074 ≤ e) (hHigh : e ≤ 971) :
    unpack Format.binary64 (pack Format.binary64 (.finite sign m e hPos)) =
      .finite sign m e hPos := by
  have hFits : ¬ 2048 ≤ (e + 1023 + 52).toNat + 1 := by omega
  have hLog : m.log2 + 1 = 53 := by
    have hBelow := (Nat.log2_lt hPos.ne').mpr hLess
    have hAbove := (Nat.le_log2 hPos.ne').mpr hNormal
    omega
  have hPacked : pack Format.binary64 (.finite sign m e hPos) =
      packComponents Format.binary64 sign (.ofNat 11 (e + 1023 + 52).toNat) (.ofNat 52 m) :=
    (if_neg hFits).trans (if_pos hLog)
  -- the biased exponent fits its 11 bits; of the mantissa the leading bit is cut off
  have hExponent : (BitVec.ofNat 11 (e + 1023 + 52).toNat).toNat = (e + 1023 + 52).toNat := by
    rw [BitVec.toNat_ofNat]
    omega
  have hMantissa : (BitVec.ofNat 52 m).toNat = m - 2 ^ 52 := by
    rw [BitVec.toNat_ofNat]
    omega
  rw [hPacked, unpack_normal (by rw [exponentField_packComponents]; omega)
    (by rw [exponentField_packComponents]; omega), UnpackedFloat.finite.injEq,
    signField_packComponents, mantissaField_packComponents, exponentField_packComponents]
  exact ⟨rfl, by omega, by omega⟩

/-- A smaller mantissa is stored as it is. -/
theorem unpack_pack_subnormal {m : ℕ} {e : ℤ} (sign : Sign) (hPos : 0 < m) (hLess : m < 2 ^ 52)
    (hLeast : e = -1074) :
    unpack Format.binary64 (pack Format.binary64 (.finite sign m e hPos)) =
      .finite sign m e hPos := by
  have hFits : ¬ 2048 ≤ (e + 1023 + 52).toNat + 1 := by omega
  have hLog : ¬ m.log2 + 1 = 53 := by
    have hBelow := (Nat.log2_lt hPos.ne').mpr hLess
    omega
  have hPacked : pack Format.binary64 (.finite sign m e hPos) =
      packComponents Format.binary64 sign 0#11 (.ofNat 52 m) :=
    (if_neg hFits).trans (if_neg hLog)
  have hMantissa : (BitVec.ofNat 52 m).toNat = m := by
    rw [BitVec.toNat_ofNat]
    omega
  rw [hPacked, unpack_subnormal (exponentField_packComponents ..)
    (by rw [mantissaField_packComponents]; omega), UnpackedFloat.finite.injEq,
    signField_packComponents, mantissaField_packComponents]
  exact ⟨rfl, hMantissa, hLeast.symm⟩

/-- What has a mantissa and an exponent that doubles have is read back as it was. -/
theorem unpack_pack {f : UnpackedFloat} (h : IsCanonical f) :
    unpack Format.binary64 (pack Format.binary64 f) = overflow f := by
  cases f with
  | notANumber => exact unpack_notANumber (by decide) (by decide)
  | infinity sign => exact unpack_packedInfinity sign
  | zero sign => exact unpack_packedZero sign
  | finite sign m e hPos =>
    obtain ⟨hLess, hLow, hFull⟩ := (h : Canonical m e)
    by_cases hLarge : 971 < e
    · -- the biased exponent would be that of infinity, or beyond
      have hTooLarge : 2048 ≤ (e + 1023 + 52).toNat + 1 := by omega
      have hPacked : pack Format.binary64 (.finite sign m e hPos) =
          packedInfinity Format.binary64 sign := if_pos hTooLarge
      rw [overflow, if_pos hLarge, hPacked, unpack_packedInfinity]
    · rw [overflow, if_neg hLarge]
      by_cases hNormal : 2 ^ 52 ≤ m
      · exact unpack_pack_normal sign hPos hLess hNormal hLow (not_lt.mp hLarge)
      · exact unpack_pack_subnormal sign hPos (not_le.mp hNormal) (hFull.resolve_right hNormal)

end DebtGauge.Double
