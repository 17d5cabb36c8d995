import DebtGauge.Proofs.Double.Value

/-!
# Arithmetic on doubles

The sum, the product and the quotient of doubles that are not negative stand for the exact
result, rounded; so does their difference where it is not negative. Only what has no result is
left out: nothing is said about zero times infinity, about infinity divided by infinity, or about
division by zero.

Main results:

* `Represents.add`, `Represents.sub`, `Represents.mul`, `Represents.div` — the exact result is
  rounded.
-/

namespace DebtGauge.Double

open Float.Model Float.Model.UnpackedFloat
open scoped ENNReal

/-! ## Results that are stored -/

/-- A result that is not negative and is stored as a double that stands for a number. -/
structure Yields (f : UnpackedFloat) (x : ℝ≥0∞) : Prop where
  canonical : IsCanonical f
  nonneg : IsNonneg f
  size_eq : size (overflow f) = x

variable {f g : UnpackedFloat}

theorem isNonneg_overflow : IsNonneg (overflow f) ↔ IsNonneg f := by
  cases f with
  | finite sign m e hPos =>
    by_cases hLarge : 971 < e
    · rw [overflow, if_pos hLarge]
      cases sign <;> exact Iff.rfl
    · rw [overflow, if_neg hLarge]
  | _ => exact Iff.rfl

theorem overflow_of_isDouble (h : IsDouble f) : overflow f = f := by
  cases f with
  | finite sign m e hPos => exact if_neg h.2.not_gt
  | _ => rfl

theorem IsDouble.isCanonical (h : IsDouble f) : IsCanonical f := by
  cases f with
  | finite => exact h.1
  | _ => trivial

/-- What is stored is read back, once it has overflowed. -/
theorem unpack_ofModel_pack (h : IsCanonical f) :
    (Float.ofModel (.pack f)).toModel.unpack = overflow f := unpack_pack h

theorem Yields.represents {x : ℝ≥0∞} (h : Yields f x) :
    Represents (Float.ofModel (.pack f)) x where
  zero_le := by
    rw [zero_le_iff, unpack_ofModel_pack h.canonical, isNonneg_overflow]
    exact h.nonneg
  value_eq := by
    rw [value, unpack_ofModel_pack h.canonical, h.size_eq]

/-- A result that is a double already. -/
theorem yields_rounded_size (h : IsDouble f) (hNonneg : IsNonneg f) :
    Yields f (rounded (size f)) where
  canonical := h.isCanonical
  nonneg := hNonneg
  size_eq := by rw [overflow_of_isDouble h, rounded_size h]

theorem yields_zero (sign : Sign) : Yields (.zero sign) (rounded 0) :=
  yields_rounded_size (f := .zero sign) trivial trivial

theorem yields_top : Yields (.infinity .positive) (rounded ⊤) :=
  yields_rounded_size (f := .infinity .positive) trivial trivial

/-- What a number is rounded to before it is stored overflows just as the number does. -/
theorem size_overflow {sign : Sign} {x : ℝ} (hx : 0 ≤ x) (h : IsRounded sign x f) :
    size (overflow f) = rounded (.ofReal x) := by
  rw [rounded_ofReal hx]
  cases f with
  | notANumber => exact h.elim
  | infinity => exact h.elim
  | zero sign' =>
    have hZero : nearest x = 0 := h.2
    rw [hZero, if_neg (by norm_num), ENNReal.ofReal_zero]
    rfl
  | finite sign' m e hPos =>
    obtain ⟨-, hCanonical, hNearest⟩ := h
    rw [hNearest, overflow]
    by_cases hLarge : 971 < e
    · -- with an exponent beyond the largest one a full mantissa reaches `2 ^ 1024`
      have hFull : 2 ^ 52 ≤ m := hCanonical.full.resolve_left (by omega)
      have hOver : (2 : ℝ) ^ 1024 ≤ (m : ℝ) * 2 ^ e := by
        calc (2 : ℝ) ^ 1024 = 2 ^ 52 * 2 ^ (972 : ℤ) := by
              rw [show (972 : ℤ) = (972 : ℕ) from rfl, zpow_natCast, ← pow_add]
          _ ≤ (m : ℝ) * 2 ^ e := by
              gcongr
              · exact_mod_cast hFull
              · norm_num
              · omega
      rw [if_pos hLarge, if_pos hOver]
      rfl
    · -- any other mantissa stays below it
      rw [if_neg hLarge, if_neg (not_le.mpr (mul_zpow_lt hCanonical.lt (not_lt.mp hLarge)))]
      rfl

theorem IsRounded.isCanonical {sign : Sign} {x : ℝ} (h : IsRounded sign x f) :
    IsCanonical f := by
  cases f with
  | finite => exact h.2.1
  | _ => trivial

theorem IsRounded.yields {x : ℝ} (h : IsRounded .positive x f) (hx : 0 ≤ x) :
    Yields f (rounded (.ofReal x)) := by
  refine ⟨h.isCanonical, ?_, size_overflow hx h⟩
  cases f with
  | notANumber => exact h.elim
  | infinity => exact h.elim
  | zero => trivial
  | finite sign m e hPos =>
    obtain rfl : sign = .positive := h.1
    trivial

/-! ## Exact results -/

variable {m m' : ℕ} {e e' t : ℤ}

/-- The exponents that leave a mantissa its digits. -/
theorem le_target (h : e ≤ -1074 ∨ 2 ^ 52 ≤ m) : e ≤ target m e := by
  unfold target
  obtain hLeast | hFull := h
  · exact le_max_of_le_right hLeast
  · have hLog : 52 ≤ m.log2 := (Nat.le_log2 (by omega)).mpr hFull
    exact le_max_of_le_left (by omega)

theorem decreaseExponent_eq (m : ℕ) (h : t ≤ e) :
    decreaseExponent m e t = (m * 2 ^ (e - t).toNat, t) := by
  have hTarget : e - ((e - t).toNat : ℤ) = t := by omega
  simp only [decreaseExponent, Nat.shiftLeft_eq, hTarget]

theorem mul_zpow_of_le (m : ℕ) (h : t ≤ e) :
    ((m * 2 ^ (e - t).toNat : ℕ) : ℝ) * 2 ^ t = m * 2 ^ e := by
  obtain ⟨k, rfl⟩ := Int.le.dest h
  have hShift : (t + k - t).toNat = k := by omega
  rw [hShift, zpow_add₀ (by norm_num), zpow_natCast]
  push_cast
  ring

/-- A shift raises the logarithm by as much as it lowers the exponent. -/
theorem target_shift (hm : m ≠ 0) (h : t ≤ e) :
    target (m * 2 ^ (e - t).toNat) t = target m e := by
  obtain ⟨k, rfl⟩ := Int.le.dest h
  have hShift : (t + k - t).toNat = k := by omega
  have hLog : (m * 2 ^ k).log2 = m.log2 + k := by
    refine (Nat.log2_eq_iff (by positivity)).mpr ⟨?_, ?_⟩
    · rw [pow_add]
      exact Nat.mul_le_mul_right _ (Nat.log2_self_le hm)
    · rw [add_right_comm, pow_add]
      exact Nat.mul_lt_mul_of_pos_right (lt_two_pow_log2 m) (by positivity)
  rw [hShift]
  unfold target
  rw [hLog]
  push_cast
  congr 1
  ring

/-- An exact number is rounded, whatever its exponent. -/
theorem isRounded_round (sign : Sign) (hm : m ≠ 0) (e : ℤ) :
    IsRounded sign (m * 2 ^ e) (round Format.binary64 sign m e) := by
  unfold UnpackedFloat.round
  rw [targetExponent_eq]
  dsimp only
  by_cases hLess : target m e ≤ e
  · -- the mantissa is padded with zeros down to the target, which stays where it is
    rw [decreaseExponent_eq m hLess, ← mul_zpow_of_le m hLess]
    exact isRounded_roundWithAccuracy sign (locates_exact _) (target_shift hm hLess).ge
  · -- digits enough already
    have hNone : (e - target m e).toNat = 0 := by omega
    have hEq : decreaseExponent m e (target m e) = (m, e) := by
      simp only [decreaseExponent, hNone, Nat.shiftLeft_zero, Nat.cast_zero, sub_zero]
    rw [hEq]
    exact isRounded_roundWithAccuracy sign (locates_exact _) (not_le.mp hLess).le

/-- A positive whole multiple of a power of two is rounded. -/
theorem isRounded_normalize_of_pos {n : ℤ} (hn : 0 < n) (e : ℤ) (zeroSign : Sign) :
    IsRounded .positive (n * 2 ^ e) (UnpackedFloat.normalize Format.binary64 n e zeroSign) := by
  obtain ⟨k, rfl⟩ := Int.eq_ofNat_of_zero_le hn.le
  unfold UnpackedFloat.normalize
  rw [compare_gt_iff_gt.mpr hn]
  have hk : k ≠ 0 := by omega
  exact_mod_cast isRounded_round .positive hk e

/-- A negative whole multiple of a power of two is rounded like its opposite. -/
theorem isRounded_normalize_of_neg {n : ℤ} (hn : n < 0) (e : ℤ) (zeroSign : Sign) :
    IsRounded .negative (-n * 2 ^ e) (UnpackedFloat.normalize Format.binary64 n e zeroSign) := by
  obtain ⟨k, hk⟩ := Int.eq_ofNat_of_zero_le (neg_nonneg.mpr hn.le)
  have hNonzero : k ≠ 0 := by omega
  have hReal : (-n : ℝ) = k := by exact_mod_cast hk
  unfold UnpackedFloat.normalize
  rw [compare_lt_iff_lt.mpr hn, hReal, hk]
  exact isRounded_round .negative hNonzero e

/-! ## Sums and differences -/

theorem magnitude_eq_of_le (m : ℕ) (h : t ≤ e) :
    magnitude m e = .ofReal (((m * 2 ^ (e - t).toNat : ℕ) : ℝ) * 2 ^ t) := by
  rw [magnitude, mul_zpow_of_le m h]

/-- The sum of positive numbers is that of their mantissas, brought to the same exponent. -/
theorem yields_add_finite (hm : 0 < m) (hm' : 0 < m') :
    Yields (UnpackedFloat.add Format.binary64 (.finite .positive m e hm)
      (.finite .positive m' e' hm')) (rounded (magnitude m e + magnitude m' e')) := by
  have hLeft : min e e' ≤ e := min_le_left e e'
  have hRight : min e e' ≤ e' := min_le_right e e'
  rw [magnitude_eq_of_le m hLeft, magnitude_eq_of_le m' hRight,
    ← ENNReal.ofReal_add (by positivity) (by positivity), ← add_mul]
  unfold UnpackedFloat.add
  dsimp only [Sign.apply]
  rw [decreaseExponent_eq m hLeft, decreaseExponent_eq m' hRight]
  have hSum := isRounded_normalize_of_pos
    (n := ((m * 2 ^ (e - min e e').toNat : ℕ) + (m' * 2 ^ (e' - min e e').toNat : ℕ) : ℤ))
    (by positivity) (min e e') .positive
  rw [Int.cast_add, Int.cast_natCast, Int.cast_natCast] at hSum
  exact hSum.yields (by positivity)

theorem yields_add (hf : IsNonneg f) (hg : IsNonneg g) (hfDouble : IsDouble f)
    (hgDouble : IsDouble g) :
    Yields (UnpackedFloat.add Format.binary64 f g) (rounded (size f + size g)) := by
  obtain ⟨sign, rfl⟩ | ⟨m, e, hm, rfl⟩ | rfl := hf.eq_or
  · -- from zero on: the other number, or a zero with a sign of its own
    rw [size_zero, zero_add]
    obtain ⟨sign', rfl⟩ | ⟨m', e', hm', rfl⟩ | rfl := hg.eq_or
    · cases sign <;> cases sign' <;> exact yields_zero _
    · exact yields_rounded_size hgDouble hg
    · exact yields_top
  · obtain ⟨sign', rfl⟩ | ⟨m', e', hm', rfl⟩ | rfl := hg.eq_or
    · rw [size_zero, add_zero]
      exact yields_rounded_size hfDouble hf
    · -- two positive numbers: the only case that rounds
      exact yields_add_finite hm hm'
    · rw [size_infinity, add_top]
      exact yields_top
  · rw [size_infinity, top_add]
    obtain ⟨sign', rfl⟩ | ⟨m', e', hm', rfl⟩ | rfl := hg.eq_or <;> exact yields_top

/-- The difference of positive numbers is rounded if it is not negative, and otherwise it is a
double that is negative or zero. -/
theorem yields_sub_finite (hm : 0 < m) (hm' : 0 < m') :
    let difference := UnpackedFloat.sub Format.binary64 (.finite .positive m e hm)
      (.finite .positive m' e' hm')
    Yields difference (rounded (magnitude m e - magnitude m' e')) ∨
      IsCanonical difference ∧ ¬ IsNonneg difference ∧ magnitude m e ≤ magnitude m' e' := by
  have hLeft : min e e' ≤ e := min_le_left e e'
  have hRight : min e e' ≤ e' := min_le_right e e'
  rw [magnitude_eq_of_le m hLeft, magnitude_eq_of_le m' hRight]
  unfold UnpackedFloat.sub
  dsimp only [Sign.apply]
  rw [decreaseExponent_eq m hLeft, decreaseExponent_eq m' hRight]
  dsimp only
  generalize m * 2 ^ (e - min e e').toNat = k
  generalize m' * 2 ^ (e' - min e e').toNat = k'
  generalize min e e' = t
  rw [← ENNReal.ofReal_sub _ (by positivity), ← sub_mul]
  -- both have the same exponent now, so that the mantissas decide
  obtain hLess | rfl | hLess := lt_trichotomy k k'
  · have hNegative : (k : ℤ) - k' < 0 := by omega
    have hRounded := isRounded_normalize_of_neg hNegative t .positive
    have hOrder : (k : ℝ) * 2 ^ t ≤ k' * 2 ^ t := by
      gcongr
    have hNone : rounded (ENNReal.ofReal (((k : ℝ) - k') * 2 ^ t)) = rounded 0 := by
      rw [sub_mul, ENNReal.ofReal_of_nonpos (sub_nonpos.mpr hOrder)]
    rw [hNone]
    -- a negative difference is rounded to a negative number, or to a zero
    generalize UnpackedFloat.normalize Format.binary64 ((k : ℤ) - k') t .positive = f at hRounded
    cases f with
    | notANumber => exact hRounded.elim
    | infinity => exact hRounded.elim
    | zero sign => exact .inl (yields_zero sign)
    | finite sign n t' hPos =>
      obtain rfl : sign = .negative := hRounded.1
      exact .inr ⟨hRounded.isCanonical, id, ENNReal.ofReal_le_ofReal hOrder⟩
  · rw [sub_self, sub_self, zero_mul, ENNReal.ofReal_zero]
    exact .inl (yields_zero .positive)
  · have hPositive : (0 : ℤ) < (k : ℤ) - k' := by omega
    have hRounded := isRounded_normalize_of_pos hPositive t .positive
    rw [Int.cast_sub, Int.cast_natCast, Int.cast_natCast] at hRounded
    have hOrder : (k' : ℝ) ≤ k := by exact_mod_cast hLess.le
    exact .inl (hRounded.yields (mul_nonneg (sub_nonneg.mpr hOrder) (by positivity)))

/-- The difference from a finite number is rounded if it is not negative. -/
theorem yields_sub (hf : IsNonneg f) (hg : IsNonneg g) (hfDouble : IsDouble f)
    (hgDouble : IsDouble g) (hFinite : size f ≠ ⊤) :
    let difference := UnpackedFloat.sub Format.binary64 f g
    Yields difference (rounded (size f - size g)) ∨
      IsCanonical difference ∧ ¬ IsNonneg difference ∧ size f ≤ size g := by
  obtain ⟨sign, rfl⟩ | ⟨m, e, hm, rfl⟩ | rfl := hf.eq_or
  · -- zero, less zero or a number that makes the difference negative
    rw [size_zero, zero_tsub]
    obtain ⟨sign', rfl⟩ | ⟨m', e', hm', rfl⟩ | rfl := hg.eq_or
    · left
      cases sign <;> cases sign' <;> exact yields_zero _
    · exact .inr ⟨hgDouble.1, id, zero_le⟩
    · exact .inr ⟨trivial, id, zero_le⟩
  · -- a positive number, less zero, a positive number or infinity
    obtain ⟨sign', rfl⟩ | ⟨m', e', hm', rfl⟩ | rfl := hg.eq_or
    · rw [size_zero, tsub_zero]
      exact .inl (yields_rounded_size hfDouble hf)
    · exact yields_sub_finite hm hm'
    · exact .inr ⟨trivial, id, le_top⟩
  · exact absurd rfl hFinite

/-! ## Products and quotients -/

/-- The product of positive numbers is rounded, if there are digits enough. -/
theorem yields_mul_finite (hDigits : e + e' ≤ -1074 ∨ 2 ^ 52 ≤ m * m') (hm : 0 < m)
    (hm' : 0 < m') :
    Yields (UnpackedFloat.mul Format.binary64 (.finite .positive m e hm)
      (.finite .positive m' e' hm')) (rounded (magnitude m e * magnitude m' e')) := by
  have hProduct : (m : ℝ) * 2 ^ e * (m' * 2 ^ e') = ((m * m' : ℕ) : ℝ) * 2 ^ (e + e') := by
    rw [zpow_add₀ (by norm_num)]
    push_cast
    ring
  rw [magnitude, magnitude, ← ENNReal.ofReal_mul (by positivity), hProduct]
  exact (isRounded_roundWithAccuracy .positive (locates_exact _)
    (le_target hDigits)).yields (by positivity)

/-- The product of doubles has digits enough: unless both have the least exponent, one of them
brings all its digits. -/
theorem Canonical.mul_digits (h : Canonical m e) (h' : Canonical m' e') (hm : 0 < m)
    (hm' : 0 < m') : e + e' ≤ -1074 ∨ 2 ^ 52 ≤ m * m' := by
  obtain hLeast | hFull := h.full
  · obtain hLeast' | hFull' := h'.full
    · exact .inl (by omega)
    · exact .inr (hFull'.trans (Nat.le_mul_of_pos_left m' hm))
  · exact .inr (hFull.trans (Nat.le_mul_of_pos_right m hm'))

theorem yields_mul (hf : IsNonneg f) (hg : IsNonneg g) (hfDouble : IsDouble f)
    (hgDouble : IsDouble g) (hFinite : size g ≠ ⊤) (hDefined : size f ≠ ⊤ ∨ size g ≠ 0) :
    Yields (UnpackedFloat.mul Format.binary64 f g) (rounded (size f * size g)) := by
  obtain ⟨sign', rfl⟩ | ⟨m', e', hm', rfl⟩ | rfl := hg.eq_or
  · -- times zero: infinity is excluded
    rw [size_zero, mul_zero]
    obtain ⟨sign, rfl⟩ | ⟨m, e, hm, rfl⟩ | rfl := hf.eq_or
    · exact yields_zero _
    · exact yields_zero _
    · exact (hDefined.elim (fun h => h rfl) (fun h => h rfl)).elim
  · -- times a positive number
    obtain ⟨sign, rfl⟩ | ⟨m, e, hm, rfl⟩ | rfl := hf.eq_or
    · rw [size_zero, zero_mul]
      exact yields_zero _
    · exact yields_mul_finite (hfDouble.1.mul_digits hgDouble.1 hm hm') hm hm'
    · rw [size_infinity, size_finite,
        ENNReal.top_mul (magnitude_pos e' hm').ne']
      exact yields_top
  · exact absurd rfl hFinite

/-- The remainder of a division says where the quotient lies. -/
theorem locates_div (n : ℕ) {d : ℕ} (hd : 0 < d) :
    Locates (n / d) ((n : ℝ) / d) (accuracyOfFraction (n % d) d) := by
  have hSplit : (n : ℝ) = d * (n / d : ℕ) + (n % d : ℕ) := by
    exact_mod_cast (Nat.div_add_mod n d).symm
  have hPos : (0 : ℝ) < d := by exact_mod_cast hd
  have hValue : (n : ℝ) / d = (n / d : ℕ) + (n % d : ℕ) / d := by
    rw [eq_comm, hSplit]
    field_simp
  have hLess : ((n % d : ℕ) : ℝ) < d := by exact_mod_cast Nat.mod_lt n hd
  rw [hValue]
  generalize n / d = q
  generalize n % d = r at hLess
  unfold accuracyOfFraction
  split
  case isTrue hNone =>
    show _ = _
    rw [hNone, Nat.cast_zero, zero_div, add_zero]
  case isFalse hSome =>
    have hRest : (0 : ℝ) < r := by exact_mod_cast Nat.pos_of_ne_zero hSome
    -- twice the remainder against the divisor says which half of the way the quotient lies in
    obtain hBelow | hHalf | hAbove := lt_trichotomy (2 * r) d
    · have hReal : 2 * (r : ℝ) < d := by exact_mod_cast hBelow
      rw [Nat.compare_eq_lt.mpr hBelow]
      refine ⟨by linarith [div_pos hRest hPos], ?_⟩
      have : (r : ℝ) / d < 1 / 2 := by
        rw [div_lt_div_iff₀ hPos (by norm_num)]
        linarith
      linarith
    · have hReal : 2 * (r : ℝ) = d := by exact_mod_cast hHalf
      rw [Nat.compare_eq_eq.mpr hHalf]
      show _ = _
      rw [← hReal]
      field_simp
    · have hReal : (d : ℝ) < 2 * r := by exact_mod_cast hAbove
      rw [Nat.compare_eq_gt.mpr hAbove]
      have hHalf : 1 / 2 < (r : ℝ) / d := by
        rw [div_lt_div_iff₀ (by norm_num) hPos]
        linarith
      have hOne : (r : ℝ) / d < 1 := (div_lt_one hPos).mpr hLess
      exact ⟨by linarith, by linarith⟩

/-- The exponent with which the quotient of two mantissas has digits enough. -/
def quotientExponent (m : ℕ) (e : ℤ) (m' : ℕ) (e' : ℤ) : ℤ :=
  min (e - e') (max (m.log2 + 1 + e - (m'.log2 + 1 + e') - 53) (-1074))

section Quotient

variable {shift : ℕ} (hShift : quotientExponent m e m' e' + shift = e - e')
include hShift

/-- The dividend is shifted before it is divided. -/
theorem divCore_eq : divCore Format.binary64 m e m' e' =
    (m * 2 ^ shift / m', quotientExponent m e m' e',
      accuracyOfFraction (m * 2 ^ shift % m') m') := by
  have hNat : (e - e' - quotientExponent m e m' e').toNat = shift := by omega
  show (m <<< (e - e' - quotientExponent m e m' e').toNat / m', quotientExponent m e m' e',
    accuracyOfFraction (m <<< (e - e' - quotientExponent m e m' e').toNat % m') m') = _
  rw [hNat, Nat.shiftLeft_eq]

/-- The quotient of the shifted dividend has all 53 digits, unless its exponent is as low as the
least one. -/
theorem quotient_digits (hm : 0 < m) (hm' : 0 < m') :
    quotientExponent m e m' e' ≤ -1074 ∨ 2 ^ 52 ≤ m * 2 ^ shift / m' := by
  by_cases hLow : quotientExponent m e m' e' ≤ -1074
  · exact .inl hLow
  -- above the least exponent, the exponent is the one that the logarithms call for
  have hEnough : 52 + (m'.log2 + 1) ≤ m.log2 + shift := by
    unfold quotientExponent at hLow hShift
    omega
  right
  rw [Nat.le_div_iff_mul_le hm']
  calc 2 ^ 52 * m' ≤ 2 ^ 52 * 2 ^ (m'.log2 + 1) := by
        gcongr
        exact (lt_two_pow_log2 m').le
    _ = 2 ^ (52 + (m'.log2 + 1)) := (pow_add ..).symm
    _ ≤ 2 ^ (m.log2 + shift) := Nat.pow_le_pow_right (by decide) hEnough
    _ = 2 ^ m.log2 * 2 ^ shift := pow_add ..
    _ ≤ m * 2 ^ shift := by
        gcongr
        exact Nat.log2_self_le hm.ne'

theorem quotient_eq : (m : ℝ) * 2 ^ e / (m' * 2 ^ e') =
    ((m * 2 ^ shift : ℕ) : ℝ) / m' * 2 ^ quotientExponent m e m' e' := by
  have hExponent : (2 : ℝ) ^ e =
      2 ^ quotientExponent m e m' e' * 2 ^ shift * 2 ^ e' := by
    rw [← zpow_natCast, ← zpow_add₀ (by norm_num), ← zpow_add₀ (by norm_num), hShift,
      sub_add_cancel]
  rw [hExponent]
  push_cast
  field_simp

end Quotient

/-- The quotient of positive numbers is rounded. -/
theorem yields_div_finite (hm : 0 < m) (hm' : 0 < m') :
    Yields (UnpackedFloat.div Format.binary64 (.finite .positive m e hm)
      (.finite .positive m' e' hm')) (rounded (magnitude m e / magnitude m' e')) := by
  have hLess : quotientExponent m e m' e' ≤ e - e' := min_le_left _ _
  obtain ⟨shift, hShift⟩ := Int.le.dest hLess
  rw [magnitude, magnitude, ← ENNReal.ofReal_div_of_pos (by positivity), quotient_eq hShift]
  unfold UnpackedFloat.div
  dsimp only
  rw [divCore_eq hShift]
  exact (isRounded_roundWithAccuracy .positive (locates_div _ hm')
    (le_target (quotient_digits hShift hm hm'))).yields (by positivity)

theorem yields_div (hf : IsNonneg f) (hg : IsNonneg g) (hNonzero : size g ≠ 0)
    (hDefined : size f ≠ ⊤ ∨ size g ≠ ⊤) :
    Yields (UnpackedFloat.div Format.binary64 f g) (rounded (size f / size g)) := by
  obtain ⟨sign', rfl⟩ | ⟨m', e', hm', rfl⟩ | rfl := hg.eq_or
  · exact absurd rfl hNonzero
  · -- by a positive number
    obtain ⟨sign, rfl⟩ | ⟨m, e, hm, rfl⟩ | rfl := hf.eq_or
    · rw [size_zero, ENNReal.zero_div]
      exact yields_zero _
    · exact yields_div_finite hm hm'
    · rw [size_infinity, size_finite,
        ENNReal.top_div_of_ne_top (magnitude_ne_top m' e')]
      exact yields_top
  · -- by infinity: infinity is excluded
    rw [size_infinity, ENNReal.div_top]
    obtain ⟨sign, rfl⟩ | ⟨m, e, hm, rfl⟩ | rfl := hf.eq_or
    · exact yields_zero _
    · exact yields_zero _
    · exact (hDefined.elim (fun h => h rfl) (fun h => h rfl)).elim

/-! ## Doubles -/

namespace Represents

variable {a b : Float} {x y : ℝ≥0∞} (ha : Represents a x) (hb : Represents b y)
include ha hb

theorem add : Represents (a + b) (rounded (x + y)) := by
  rw [← ha.value_eq, ← hb.value_eq]
  exact (yields_add (zero_le_iff.mp ha.zero_le) (zero_le_iff.mp hb.zero_le) (isDouble a)
    (isDouble b)).represents

theorem sub (hx : x ≠ ⊤) :
    Represents (a - b) (rounded (x - y)) ∨ ¬ 0.0 ≤ a - b ∧ x ≤ y := by
  rw [← ha.value_eq] at hx ⊢
  rw [← hb.value_eq]
  obtain hYields | ⟨hCanonical, hNegative, hOrder⟩ := yields_sub (zero_le_iff.mp ha.zero_le)
    (zero_le_iff.mp hb.zero_le) (isDouble a) (isDouble b) hx
  · exact .inl hYields.represents
  · refine .inr ⟨fun hNonneg => hNegative ?_, hOrder⟩
    rw [← isNonneg_overflow, ← unpack_ofModel_pack hCanonical]
    exact zero_le_iff.mp hNonneg

/-- The product of doubles is rounded, unless it is that of zero and infinity. -/
theorem mul (hy : y ≠ ⊤) (hDefined : x ≠ ⊤ ∨ y ≠ 0) : Represents (a * b) (rounded (x * y)) := by
  rw [← hb.value_eq] at hy hDefined ⊢
  rw [← ha.value_eq] at hDefined ⊢
  exact (yields_mul (zero_le_iff.mp ha.zero_le) (zero_le_iff.mp hb.zero_le) (isDouble a)
    (isDouble b) hy hDefined).represents

/-- The quotient of doubles is rounded, unless both are infinite or the divisor is zero. -/
theorem div (hy : y ≠ 0) (hDefined : x ≠ ⊤ ∨ y ≠ ⊤) : Represents (a / b) (rounded (x / y)) := by
  rw [← hb.value_eq] at hy hDefined ⊢
  rw [← ha.value_eq] at hDefined ⊢
  exact (yields_div (zero_le_iff.mp ha.zero_le) (zero_le_iff.mp hb.zero_le) hy
    hDefined).represents

end Represents

end DebtGauge.Double
