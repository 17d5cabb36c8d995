import DebtGauge.Proofs.Double.Packing

/-!
# What doubles stand for

A double that is not negative stands for a number, which may be infinite. The order of such
doubles is that of their numbers.

Main definitions and results:

* `size` — the number that an unpacked double stands for, its sign left out;
* `value` — the number that a double stands for, its sign left out;
* `Represents` — a double that is not negative and stands for a number;
* `Represents.le_iff`, `Represents.lt_iff` — the order of such doubles is that of their numbers.
-/

namespace DebtGauge.Double

open Float.Model Float.Model.UnpackedFloat
open scoped ENNReal

/-- The number that an unpacked double stands for, its sign left out. -/
noncomputable def size : UnpackedFloat → ℝ≥0∞
  | .notANumber => 0
  | .infinity _ => ⊤
  | .zero _ => 0
  | .finite _ m e _ => magnitude m e

@[simp]
theorem size_zero (sign : Sign) : size (.zero sign) = 0 := rfl

@[simp]
theorem size_finite (sign : Sign) (m : ℕ) (e : ℤ) (hPos : 0 < m) :
    size (.finite sign m e hPos) = magnitude m e := rfl

@[simp]
theorem size_infinity (sign : Sign) : size (.infinity sign) = ⊤ := rfl

/-- An unpacked double that is zero or positive. -/
def IsNonneg : UnpackedFloat → Prop
  | .zero _ => True
  | .finite .positive _ _ _ => True
  | .infinity .positive => True
  | _ => False

/-- A zero, a positive number, or infinity. -/
theorem IsNonneg.eq_or {f : UnpackedFloat} (h : IsNonneg f) :
    (∃ sign, f = .zero sign) ∨ (∃ m e hPos, f = .finite .positive m e hPos) ∨
      f = .infinity .positive := by
  cases f with
  | notANumber => exact h.elim
  | zero sign => exact .inl ⟨sign, rfl⟩
  | finite sign m e hPos =>
    cases sign with
    | negative => exact h.elim
    | positive => exact .inr (.inl ⟨m, e, hPos, rfl⟩)
  | infinity sign =>
    cases sign with
    | negative => exact h.elim
    | positive => exact .inr (.inr rfl)

@[simp]
theorem magnitude_ne_top (m : ℕ) (e : ℤ) : magnitude m e ≠ ⊤ := ENNReal.ofReal_ne_top

theorem magnitude_pos {m : ℕ} (e : ℤ) (hPos : 0 < m) : 0 < magnitude m e :=
  ENNReal.ofReal_pos.mpr (by positivity)

theorem magnitude_le_magnitude_iff {m m' : ℕ} {e : ℤ} :
    magnitude m e ≤ magnitude m' e ↔ m ≤ m' := by
  have hUnit : (0 : ℝ) < 2 ^ e := by positivity
  rw [magnitude, magnitude, ENNReal.ofReal_le_ofReal_iff (by positivity),
    mul_le_mul_iff_left₀ hUnit, Nat.cast_le]

/-- A larger exponent outweighs the mantissa, which has all its digits. -/
theorem magnitude_lt_of_exponent_lt {m m' : ℕ} {e e' : ℤ} (h : Canonical m e)
    (h' : Canonical m' e') (hLess : e < e') : magnitude m e < magnitude m' e' := by
  have hFull : 2 ^ 52 ≤ m' := h'.full.resolve_left (by have := h.least_le; omega)
  have hBelow : (m : ℝ) * 2 ^ e < m' * 2 ^ e' := by
    calc (m : ℝ) * 2 ^ e < 2 ^ 53 * 2 ^ e := by
          gcongr
          exact_mod_cast h.lt
      _ = 2 ^ 52 * 2 ^ (e + 1) := by
          rw [zpow_add_one₀ (by norm_num)]
          ring
      _ ≤ m' * 2 ^ e' := by
          gcongr
          · exact_mod_cast hFull
          · norm_num
          · omega
  exact (ENNReal.ofReal_lt_ofReal_iff_of_nonneg (by positivity)).mpr hBelow

theorem magnitude_le_iff {m m' : ℕ} {e e' : ℤ} (h : Canonical m e) (h' : Canonical m' e') :
    magnitude m e ≤ magnitude m' e' ↔ ((compare e e').then (compare m m')).isLE = true := by
  -- the exponents are compared first, as the mantissas have all their digits
  obtain hLess | rfl | hLess := lt_trichotomy e e'
  · rw [compare_lt_iff_lt.mpr hLess]
    exact iff_of_true (magnitude_lt_of_exponent_lt h h' hLess).le rfl
  · rw [compare_eq_iff_eq.mpr rfl, magnitude_le_magnitude_iff, Ordering.eq_then,
      Nat.isLE_compare]
  · rw [compare_gt_iff_gt.mpr hLess]
    exact iff_of_false (magnitude_lt_of_exponent_lt h' h hLess).not_ge Bool.false_ne_true

theorem le_iff_size_le {f g : UnpackedFloat} (hf : IsNonneg f) (hg : IsNonneg g)
    (hfDouble : IsDouble f) (hgDouble : IsDouble g) : f.le g = true ↔ size f ≤ size g := by
  obtain ⟨sign, rfl⟩ | ⟨m, e, hPos, rfl⟩ | rfl := hf.eq_or
  · -- a zero of either sign is below everything
    refine iff_of_true ?_ zero_le
    obtain ⟨sign', rfl⟩ | ⟨m', e', hPos', rfl⟩ | rfl := hg.eq_or <;> rfl
  · -- a positive number is above zero and below infinity
    obtain ⟨sign', rfl⟩ | ⟨m', e', hPos', rfl⟩ | rfl := hg.eq_or
    · exact iff_of_false Bool.false_ne_true (magnitude_pos e hPos).not_ge
    · exact (magnitude_le_iff hfDouble.1 hgDouble.1).symm
    · exact iff_of_true rfl le_top
  · -- infinity is below itself only
    obtain ⟨sign', rfl⟩ | ⟨m', e', hPos', rfl⟩ | rfl := hg.eq_or
    · exact iff_of_false Bool.false_ne_true (by simp [size])
    · exact iff_of_false Bool.false_ne_true (by simp [size])
    · exact iff_of_true rfl le_rfl

/-- Numbers that are not negative can be compared: one is below another unless the other is at
most it. -/
theorem lt_iff_not_le {f g : UnpackedFloat} (hf : IsNonneg f) (hg : IsNonneg g) :
    f.lt g = true ↔ ¬ g.le f = true := by
  obtain ⟨sign, rfl⟩ | ⟨m, e, hPos, rfl⟩ | rfl := hf.eq_or
  · -- a zero is below what is positive
    obtain ⟨sign', rfl⟩ | ⟨m', e', hPos', rfl⟩ | rfl := hg.eq_or
    · exact iff_of_false Bool.false_ne_true (fun h => h rfl)
    · exact iff_of_true rfl Bool.false_ne_true
    · exact iff_of_true rfl Bool.false_ne_true
  · obtain ⟨sign', rfl⟩ | ⟨m', e', hPos', rfl⟩ | rfl := hg.eq_or
    · exact iff_of_false Bool.false_ne_true (fun h => h rfl)
    · -- exponents and mantissas compared the other way round
      show (some ((compare e e').then (compare m m')) == some .lt) = true ↔
        ¬ ((compare e' e).then (compare m' m)).isLE = true
      rw [Std.OrientedOrd.eq_swap (a := e'), Std.OrientedOrd.eq_swap (a := m'),
        ← Ordering.swap_then]
      cases (compare e e').then (compare m m') <;> decide
    · exact iff_of_true rfl Bool.false_ne_true
  · -- infinity is below nothing
    obtain ⟨sign', rfl⟩ | ⟨m', e', hPos', rfl⟩ | rfl := hg.eq_or
    · exact iff_of_false Bool.false_ne_true (fun h => h rfl)
    · exact iff_of_false Bool.false_ne_true (fun h => h rfl)
    · exact iff_of_false Bool.false_ne_true (fun h => h rfl)

/-! ## Doubles -/

/-- The number that a double stands for, its sign left out. -/
noncomputable def value (x : Float) : ℝ≥0∞ := size x.toModel.unpack

theorem isDouble (x : Float) : IsDouble x.toModel.unpack := isDouble_unpack _

/-- The doubles that are not negative, both zeros among them. -/
theorem zero_le_iff {x : Float} : 0.0 ≤ x ↔ IsNonneg x.toModel.unpack := by
  have hZero : (0.0 : Float).toModel.unpack = .zero .positive := rfl
  show (decide ((0.0 : Float).toModel.unpack.le x.toModel.unpack = true)) = true ↔ _
  rw [hZero, decide_eq_true_eq]
  cases x.toModel.unpack with
  | notANumber => exact iff_of_false Bool.false_ne_true id
  | zero _ => exact iff_of_true rfl trivial
  | finite sign _ _ _ | infinity sign =>
    cases sign with
    | negative => exact iff_of_false Bool.false_ne_true id
    | positive => exact iff_of_true rfl trivial

/-- The double is not negative, and stands for the number. -/
structure Represents (a : Float) (x : ℝ≥0∞) : Prop where
  zero_le : 0.0 ≤ a
  value_eq : value a = x

theorem represents_value {a : Float} (h : 0.0 ≤ a) : Represents a (value a) := ⟨h, rfl⟩

variable {a b : Float} {x y : ℝ≥0∞}

/-- The order of doubles is that of their numbers. -/
theorem Represents.le_iff (ha : Represents a x) (hb : Represents b y) : a ≤ b ↔ x ≤ y := by
  rw [← ha.value_eq, ← hb.value_eq]
  show (decide (a.toModel.unpack.le b.toModel.unpack = true)) = true ↔ _
  rw [decide_eq_true_eq]
  exact le_iff_size_le (zero_le_iff.mp ha.zero_le) (zero_le_iff.mp hb.zero_le) (isDouble a)
    (isDouble b)

theorem Represents.lt_iff (ha : Represents a x) (hb : Represents b y) : a < b ↔ x < y := by
  rw [← not_le, ← hb.le_iff ha]
  show (decide (a.toModel.unpack.lt b.toModel.unpack = true)) = true ↔
    ¬ (decide (b.toModel.unpack.le a.toModel.unpack = true)) = true
  rw [decide_eq_true_eq, decide_eq_true_eq]
  exact lt_iff_not_le (zero_le_iff.mp ha.zero_le) (zero_le_iff.mp hb.zero_le)

/-- What is at least a double that is not negative is not negative either. -/
theorem zero_le_of_le (ha : 0.0 ≤ a) (h : a ≤ b) : 0.0 ≤ b := by
  rw [zero_le_iff] at ha ⊢
  have hLe : (decide (a.toModel.unpack.le b.toModel.unpack = true)) = true := h
  rw [decide_eq_true_eq] at hLe
  generalize b.toModel.unpack = g at hLe
  obtain ⟨sign, hUnpack⟩ | ⟨m, e, hPos, hUnpack⟩ | hUnpack := ha.eq_or
  all_goals
    rw [hUnpack] at hLe
    cases g with
    | notANumber => cases hLe
    | zero _ => trivial
    | finite sign' _ _ _ | infinity sign' =>
      cases sign' with
      | negative => cases hLe
      | positive => trivial

theorem float_le_of_lt (h : a < b) : a ≤ b := by
  have hLt : (decide (a.toModel.unpack.lt b.toModel.unpack = true)) = true := h
  show (decide (a.toModel.unpack.le b.toModel.unpack = true)) = true
  rw [decide_eq_true_eq, UnpackedFloat.lt, beq_iff_eq] at hLt
  rw [decide_eq_true_eq, UnpackedFloat.le, hLt]
  rfl

theorem float_le_of_beq (h : (a == b) = true) : a ≤ b := by
  have hBeq : a.toModel.unpack.beq b.toModel.unpack = true := h
  show (decide (a.toModel.unpack.le b.toModel.unpack = true)) = true
  rw [UnpackedFloat.beq, beq_iff_eq] at hBeq
  rw [decide_eq_true_eq, UnpackedFloat.le, hBeq]
  rfl

section Transitivity

variable {c : Float}

theorem float_le_trans (ha : 0.0 ≤ a) (hab : a ≤ b) (hbc : b ≤ c) : a ≤ c := by
  have hb := zero_le_of_le ha hab
  have hc := zero_le_of_le hb hbc
  rw [(represents_value ha).le_iff (represents_value hb)] at hab
  rw [(represents_value hb).le_iff (represents_value hc)] at hbc
  rw [(represents_value ha).le_iff (represents_value hc)]
  exact hab.trans hbc

theorem float_lt_of_lt_of_le (ha : 0.0 ≤ a) (hab : a < b) (hbc : b ≤ c) : a < c := by
  have hb := zero_le_of_le ha (float_le_of_lt hab)
  have hc := zero_le_of_le hb hbc
  rw [(represents_value ha).lt_iff (represents_value hb)] at hab
  rw [(represents_value hb).le_iff (represents_value hc)] at hbc
  rw [(represents_value ha).lt_iff (represents_value hc)]
  exact hab.trans_le hbc

end Transitivity

theorem Represents.isFinite_iff (h : Represents a x) : a.isFinite = true ↔ x ≠ ⊤ := by
  rw [← h.value_eq]
  show a.toModel.unpack.isFinite = true ↔ size a.toModel.unpack ≠ ⊤
  obtain ⟨sign, hUnpack⟩ | ⟨m, e, hPos, hUnpack⟩ | hUnpack := (zero_le_iff.mp h.zero_le).eq_or
  · rw [hUnpack]
    exact iff_of_true rfl ENNReal.zero_ne_top
  · rw [hUnpack]
    exact iff_of_true rfl (magnitude_ne_top m e)
  · rw [hUnpack]
    exact iff_of_false Bool.false_ne_true (fun h => h rfl)

theorem rounded_size {f : UnpackedFloat} (h : IsDouble f) : rounded (size f) = size f := by
  cases f with
  | notANumber => exact rounded_zero
  | zero => exact rounded_zero
  | infinity => exact rounded_top
  | finite sign m e hPos => exact rounded_magnitude h.1.lt h.1.least_le h.2

theorem Represents.rounded_eq (h : Represents a x) : rounded x = x := by
  rw [← h.value_eq]
  exact rounded_size (isDouble a)

end DebtGauge.Double
