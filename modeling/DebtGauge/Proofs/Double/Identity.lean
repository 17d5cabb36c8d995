import DebtGauge.Proofs.Double.Integral

/-!
# Which double stands for a number

The fields of a word can be told from what is read from it, so that there is one double for each
positive number, and for zero there are two of them. A difference that is taken without its sign
is rounded whichever of the two numbers is the larger one.

Main definitions and results:

* `fieldsOf` — the fields of the word that an unpacked double is read from;
* `Represents.eq` — a positive number has one double that stands for it;
* `Represents.beq_iff` — doubles are equal if they stand for the same number;
* `Represents.abs_sub` — a difference without its sign is rounded.
-/

namespace DebtGauge.Double

open Float.Model Float.Model.UnpackedFloat
open scoped ENNReal

/-! ## The word of a double -/

/-- The sign, the exponent and the mantissa of the word that an unpacked double is read from. -/
def fieldsOf : UnpackedFloat → Sign × ℕ × ℕ
  | .notANumber => (.positive, 2047, 1)
  | .infinity sign => (sign, 2047, 0)
  | .zero sign => (sign, 0, 0)
  | .finite sign m e _ => if m < 2 ^ 52 then (sign, 0, m) else (sign, (e + 1075).toNat, m - 2 ^ 52)

theorem fieldsOf_unpack {word : BitVec Format.binary64.numBits}
    (h : unpack Format.binary64 word ≠ .notANumber) :
    fieldsOf (unpack Format.binary64 word) =
      (signField word, exponentField word, mantissaField word) := by
  have hMantissa := mantissaField_lt word
  by_cases hOnes : exponentField word = 2047
  · by_cases hZero : mantissaField word = 0
    · rw [unpack_infinity hOnes hZero, fieldsOf, hOnes, hZero]
    · exact absurd (unpack_notANumber hOnes hZero) h
  by_cases hLeast : exponentField word = 0
  · by_cases hZero : mantissaField word = 0
    · rw [unpack_zero hLeast hZero, fieldsOf, hLeast, hZero]
    · rw [unpack_subnormal hLeast hZero, fieldsOf, if_pos hMantissa, hLeast]
  · -- the leading digit shows that the exponent is not the least one
    have hFull : ¬ mantissaField word + 2 ^ 52 < 2 ^ 52 := by omega
    have hExponent : ((exponentField word : ℤ) - 1075 + 1075).toNat = exponentField word := by omega
    rw [unpack_normal hLeast hOnes, fieldsOf, if_neg hFull, hExponent, Nat.add_sub_cancel]

/-- The fields of a word are all there is to it. -/
theorem word_eq_of_fields {word word' : BitVec Format.binary64.numBits}
    (hSign : signField word = signField word')
    (hExponent : exponentField word = exponentField word')
    (hMantissa : mantissaField word = mantissaField word') : word = word' := by
  have hTop := isNegative_signField word
  rw [hSign, isNegative_signField, decide_eq_decide] at hTop
  rw [exponentField_eq, exponentField_eq] at hExponent
  rw [mantissaField_eq, mantissaField_eq] at hMantissa
  have hWord : word.toNat < 2 ^ 64 := word.isLt
  have hWord' : word'.toNat < 2 ^ 64 := word'.isLt
  refine BitVec.eq_of_toNat_eq ?_
  omega

/-- A word from which a number is read is all that is read from it. -/
theorem word_eq_of_unpack_eq {word word' : BitVec Format.binary64.numBits}
    (hNumber : unpack Format.binary64 word ≠ .notANumber)
    (h : unpack Format.binary64 word = unpack Format.binary64 word') : word = word' := by
  have hSame := congrArg fieldsOf h
  rw [fieldsOf_unpack hNumber, fieldsOf_unpack (h ▸ hNumber), Prod.mk.injEq, Prod.mk.injEq] at hSame
  exact word_eq_of_fields hSame.1 hSame.2.1 hSame.2.2

theorem eq_of_unpack_eq {a b : Float} (hNumber : a.toModel.unpack ≠ .notANumber)
    (h : a.toModel.unpack = b.toModel.unpack) : a = b := by
  obtain ⟨⟨⟨word⟩, _⟩⟩ := a
  obtain ⟨⟨⟨word'⟩, _⟩⟩ := b
  obtain rfl : word = word' := word_eq_of_unpack_eq hNumber h
  rfl

/-! ## The double of a number -/

theorem IsNonneg.ne_notANumber {f : UnpackedFloat} (h : IsNonneg f) : f ≠ .notANumber := by
  rintro rfl
  exact h

/-- The mantissas and exponents of doubles can be told from their magnitudes. -/
theorem eq_of_magnitude_eq {m m' : ℕ} {e e' : ℤ} (h : Canonical m e) (h' : Canonical m' e')
    (hEq : magnitude m e = magnitude m' e') : m = m' ∧ e = e' := by
  obtain hLess | rfl | hLess := lt_trichotomy e e'
  · exact absurd hEq (magnitude_lt_of_exponent_lt h h' hLess).ne
  · exact ⟨le_antisymm (magnitude_le_magnitude_iff.mp hEq.le)
      (magnitude_le_magnitude_iff.mp hEq.ge), rfl⟩
  · exact absurd hEq.symm (magnitude_lt_of_exponent_lt h' h hLess).ne

/-- Doubles that are not negative are the same if their sizes are, zeros aside. -/
theorem eq_or_zero_of_size_eq {f g : UnpackedFloat} (hf : IsNonneg f) (hg : IsNonneg g)
    (hfDouble : IsDouble f) (hgDouble : IsDouble g) (h : size f = size g) :
    f = g ∨ ∃ sign sign', f = .zero sign ∧ g = .zero sign' := by
  obtain ⟨sign, rfl⟩ | ⟨m, e, hPos, rfl⟩ | rfl := hf.eq_or
  · obtain ⟨sign', rfl⟩ | ⟨m', e', hPos', rfl⟩ | rfl := hg.eq_or
    · exact .inr ⟨sign, sign', rfl, rfl⟩
    · exact absurd h (magnitude_pos e' hPos').ne
    · exact absurd h ENNReal.zero_ne_top
  · obtain ⟨sign', rfl⟩ | ⟨m', e', hPos', rfl⟩ | rfl := hg.eq_or
    · exact absurd h (magnitude_pos e hPos).ne'
    · obtain ⟨rfl, rfl⟩ := eq_of_magnitude_eq hfDouble.1 hgDouble.1 h
      exact .inl rfl
    · exact absurd h (magnitude_ne_top m e)
  · obtain ⟨sign', rfl⟩ | ⟨m', e', hPos', rfl⟩ | rfl := hg.eq_or
    · exact absurd h ENNReal.top_ne_zero
    · exact absurd h.symm (magnitude_ne_top m' e')
    · exact .inl rfl

namespace Represents

variable {a b : Float} {x y : ℝ≥0∞}

/-- There is one double for each positive number. -/
theorem eq (ha : Represents a x) (hb : Represents b x) (hx : x ≠ 0) : a = b := by
  have hNonneg := zero_le_iff.mp ha.zero_le
  obtain hEq | ⟨sign, -, hZero, -⟩ := eq_or_zero_of_size_eq hNonneg
    (zero_le_iff.mp hb.zero_le) (isDouble a) (isDouble b) (ha.value_eq.trans hb.value_eq.symm)
  · exact eq_of_unpack_eq hNonneg.ne_notANumber hEq
  · have hValue := ha.value_eq
    rw [value, hZero, size_zero] at hValue
    exact absurd hValue.symm hx

/-- Doubles are equal if they stand for the same number. -/
theorem beq_iff (ha : Represents a x) (hb : Represents b y) : (a == b) = true ↔ x = y := by
  rw [← ha.value_eq, ← hb.value_eq]
  show (a.toModel.unpack.beq b.toModel.unpack) = true ↔
    size a.toModel.unpack = size b.toModel.unpack
  have hf := zero_le_iff.mp ha.zero_le
  have hg := zero_le_iff.mp hb.zero_le
  constructor
  · intro hBeq
    rw [UnpackedFloat.beq, beq_iff_eq] at hBeq
    have hLe : a.toModel.unpack.le b.toModel.unpack = true := by
      rw [UnpackedFloat.le, hBeq]
      rfl
    -- what is not below another double is at least as large
    have hNotLess : ¬ a.toModel.unpack.lt b.toModel.unpack = true := by
      rw [UnpackedFloat.lt, hBeq]
      decide
    have hGe : b.toModel.unpack.le a.toModel.unpack = true :=
      not_not.mp (mt (lt_iff_not_le hf hg).mpr hNotLess)
    exact le_antisymm ((le_iff_size_le hf hg (isDouble a) (isDouble b)).mp hLe)
      ((le_iff_size_le hg hf (isDouble b) (isDouble a)).mp hGe)
  · intro hSize
    obtain hEq | ⟨sign, sign', hZero, hZero'⟩ :=
      eq_or_zero_of_size_eq hf hg (isDouble a) (isDouble b) hSize
    · rw [hEq]
      obtain ⟨sign, hUnpack⟩ | ⟨m, e, hPos, hUnpack⟩ | hUnpack := hg.eq_or
      · rw [hUnpack]
        rfl
      · rw [hUnpack]
        show (some ((compare e e).then (compare m m)) == some .eq) = true
        rw [compare_eq_iff_eq.mpr rfl, compare_eq_iff_eq.mpr rfl]
        rfl
      · rw [hUnpack]
        rfl
    · rw [hZero, hZero']
      rfl

end Represents

/-! ## Differences without their signs -/

theorem size_abs (f : UnpackedFloat) : size f.abs = size f := by
  cases f <;> rfl

theorem isNonneg_abs {f : UnpackedFloat} (h : f ≠ .notANumber) : IsNonneg f.abs := by
  cases f with
  | notANumber => exact h rfl
  | _ => trivial

theorem isDouble_abs {f : UnpackedFloat} (h : IsDouble f) : IsDouble f.abs := by
  cases f with
  | finite => exact h
  | _ => trivial

/-- A double that is a number stands for its size once its sign is dropped. -/
theorem represents_abs {a : Float} (h : a.toModel.unpack ≠ .notANumber) :
    Represents a.abs (value a) := by
  have hYields := yields_rounded_size (isDouble_abs (isDouble a)) (isNonneg_abs h)
  rw [size_abs, rounded_size (isDouble a)] at hYields
  exact hYields.represents

/-- A result of either sign that is stored as a double of a certain size. -/
structure Measures (f : UnpackedFloat) (x : ℝ≥0∞) : Prop where
  canonical : IsCanonical f
  ne_notANumber : overflow f ≠ .notANumber
  size_eq : size (overflow f) = x

theorem Yields.measures {f : UnpackedFloat} {x : ℝ≥0∞} (h : Yields f x) : Measures f x :=
  ⟨h.canonical, (isNonneg_overflow.mpr h.nonneg).ne_notANumber, h.size_eq⟩

theorem IsRounded.measures {sign : Sign} {f : UnpackedFloat} {x : ℝ} (h : IsRounded sign x f)
    (hx : 0 ≤ x) : Measures f (rounded (.ofReal x)) := by
  refine ⟨h.isCanonical, ?_, size_overflow hx h⟩
  cases f with
  | notANumber => exact h.elim
  | infinity => exact h.elim
  | zero => exact UnpackedFloat.noConfusion
  | finite =>
    rw [overflow]
    split <;> exact UnpackedFloat.noConfusion

/-- The difference of positive numbers is rounded like the one the other way round. -/
theorem measures_sub_finite {m m' : ℕ} {e e' : ℤ} (hm : 0 < m) (hm' : 0 < m')
    (hOrder : magnitude m e ≤ magnitude m' e') :
    Measures (UnpackedFloat.sub Format.binary64 (.finite .positive m e hm)
      (.finite .positive m' e' hm')) (rounded (magnitude m' e' - magnitude m e)) := by
  have hLeft : min e e' ≤ e := min_le_left e e'
  have hRight : min e e' ≤ e' := min_le_right e e'
  rw [magnitude_eq_of_le m hLeft, magnitude_eq_of_le m' hRight] at hOrder ⊢
  unfold UnpackedFloat.sub
  dsimp only [Sign.apply]
  rw [decreaseExponent_eq m hLeft, decreaseExponent_eq m' hRight]
  dsimp only
  generalize m * 2 ^ (e - min e e').toNat = k at hOrder ⊢
  generalize m' * 2 ^ (e' - min e e').toNat = k' at hOrder ⊢
  generalize min e e' = t at hOrder ⊢
  have hLe : k ≤ k' := magnitude_le_magnitude_iff.mp hOrder
  rw [← ENNReal.ofReal_sub _ (by positivity), ← sub_mul]
  obtain hLess | rfl := hLe.lt_or_eq
  · have hNegative : (k : ℤ) - k' < 0 := by omega
    have hRounded := isRounded_normalize_of_neg hNegative t .positive
    have hReal : (0 : ℝ) ≤ k' - k := sub_nonneg.mpr (by exact_mod_cast hLe)
    rw [Int.cast_sub, Int.cast_natCast, Int.cast_natCast, neg_sub] at hRounded
    exact hRounded.measures (mul_nonneg hReal (by positivity))
  · rw [sub_self, sub_self, zero_mul, ENNReal.ofReal_zero]
    exact (yields_zero .positive).measures

/-- The difference to a number that is no smaller is rounded like the one the other way round. -/
theorem measures_sub {f g : UnpackedFloat} (hf : IsNonneg f) (hg : IsNonneg g)
    (hfDouble : IsDouble f) (hgDouble : IsDouble g) (hFinite : size g ≠ ⊤)
    (hOrder : size f ≤ size g) :
    Measures (UnpackedFloat.sub Format.binary64 f g) (rounded (size g - size f)) := by
  obtain ⟨sign, rfl⟩ | ⟨m, e, hm, rfl⟩ | rfl := hf.eq_or
  · rw [size_zero, tsub_zero]
    obtain ⟨sign', rfl⟩ | ⟨m', e', hm', rfl⟩ | rfl := hg.eq_or
    · cases sign <;> cases sign' <;> exact (yields_zero _).measures
    · -- the number itself, with the other sign
      have hDouble : IsDouble (.finite .negative m' e' hm') := hgDouble
      refine ⟨hDouble.isCanonical, ?_, ?_⟩
      · show overflow (.finite .negative m' e' hm') ≠ _
        rw [overflow_of_isDouble hDouble]
        exact UnpackedFloat.noConfusion
      · show size (overflow (.finite .negative m' e' hm')) = _
        rw [overflow_of_isDouble hDouble, rounded_size hgDouble]
        rfl
    · exact absurd rfl hFinite
  · obtain ⟨sign', rfl⟩ | ⟨m', e', hm', rfl⟩ | rfl := hg.eq_or
    · exact absurd hOrder (magnitude_pos e hm).not_ge
    · exact measures_sub_finite hm hm' hOrder
    · exact absurd rfl hFinite
  · exact absurd (top_le_iff.mp hOrder) hFinite

namespace Represents

variable {a b : Float} {x y : ℝ≥0∞} (ha : Represents a x) (hb : Represents b y)
include ha hb

/-- A difference without its sign is rounded, whichever number is the larger one. -/
theorem abs_sub (hx : x ≠ ⊤) (hy : y ≠ ⊤) :
    Represents (a - b).abs (rounded (max x y - min x y)) := by
  have hf := zero_le_iff.mp ha.zero_le
  have hg := zero_le_iff.mp hb.zero_le
  have hMeasures : Measures (UnpackedFloat.sub Format.binary64 a.toModel.unpack b.toModel.unpack)
      (rounded (max x y - min x y)) := by
    rw [← ha.value_eq] at hx ⊢
    rw [← hb.value_eq] at hy ⊢
    obtain hOrder | hOrder := le_total (value a) (value b)
    · rw [max_eq_right hOrder, min_eq_left hOrder]
      exact measures_sub hf hg (isDouble a) (isDouble b) hy hOrder
    · rw [max_eq_left hOrder, min_eq_right hOrder]
      obtain hYields | ⟨-, -, hEq⟩ := yields_sub hf hg (isDouble a) (isDouble b) hx
      · exact hYields.measures
      · -- both are the same number, so that the order does not matter
        have hSwapped := measures_sub hf hg (isDouble a) (isDouble b) hy hEq
        have hSame : value a = value b := le_antisymm hEq hOrder
        have hDifference : value a - value b = value b - value a := by rw [hSame]
        rw [hDifference]
        exact hSwapped
  have hUnpack : (a - b).toModel.unpack =
      overflow (UnpackedFloat.sub Format.binary64 a.toModel.unpack b.toModel.unpack) :=
    unpack_ofModel_pack hMeasures.canonical
  have hAbs : Represents (a - b).abs (value (a - b)) :=
    represents_abs (hUnpack ▸ hMeasures.ne_notANumber)
  rwa [value, hUnpack, hMeasures.size_eq] at hAbs

end Represents

end DebtGauge.Double
