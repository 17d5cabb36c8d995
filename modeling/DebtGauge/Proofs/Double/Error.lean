import DebtGauge.Proofs.Double.Value

/-!
# Errors of rounding

A rounded number is off by at most a `2 ^ 53`th part of it, and by half the least double where it
has not all its digits. A sum of doubles has all the digits that it needs, so that only the relative
error remains. Relative errors are measured against either of the two numbers: then they are
symmetric, and those of several steps add up.

Main definitions and results:

* `roundoff_mul`, `underflow_le_roundoff` — how small the errors of one rounding are;
* `Near` — two numbers are the same up to a relative and an absolute error;
* `Near.trans` — the errors of two steps add up;
* `near_rounded`, `near_rounded_add` — the error of a rounding, and that of a sum.
-/

namespace DebtGauge.Double

open scoped ENNReal

theorem roundoff_pos : 0 < roundoff := by
  unfold roundoff
  positivity

theorem roundoff_mul : roundoff * 2 ^ 53 = 1 := by
  unfold roundoff
  norm_num

/-- Seven decimals are out of the reach of one rounding. -/
theorem roundoff_le : roundoff ≤ 1 / 10 ^ 7 := by
  unfold roundoff
  norm_num

theorem roundoff_le_one : roundoff ≤ 1 := roundoff_le.trans (by norm_num)

theorem underflow_pos : 0 < underflow := by
  unfold underflow
  positivity

theorem underflow_le_roundoff : underflow ≤ roundoff :=
  zpow_le_zpow_right₀ one_le_two (by norm_num)

/-- What bounds the relative errors of several roundings bounds the absolute ones too. -/
theorem mul_underflow_le {n : ℕ} {bound : ℝ} (h : n * roundoff ≤ bound) : n * underflow ≤ bound :=
  (mul_le_mul_of_nonneg_left underflow_le_roundoff (Nat.cast_nonneg n)).trans h

/-! ## Numbers that are the same up to errors -/

/-- Two numbers are the same up to an error relative to either of them, and an absolute one. -/
structure Near (relative absolute x y : ℝ) : Prop where
  left : (1 - relative) * x ≤ y + absolute
  right : (1 - relative) * y ≤ x + absolute

namespace Near

variable {r r' t t' x y z x' y' : ℝ}

theorem refl (hr : 0 ≤ r) (hx : 0 ≤ x) : Near r 0 x x := by
  have hLess : (1 - r) * x ≤ x + 0 := by linarith [mul_nonneg hr hx]
  exact ⟨hLess, hLess⟩

theorem symm (h : Near r t x y) : Near r t y x := ⟨h.right, h.left⟩

/-- Larger errors are errors. -/
theorem mono (h : Near r t x y) (hr : r ≤ r') (ht : t ≤ t') (hx : 0 ≤ x) (hy : 0 ≤ y) :
    Near r' t' x y where
  left := by linarith [h.left, mul_le_mul_of_nonneg_right hr hx]
  right := by linarith [h.right, mul_le_mul_of_nonneg_right hr hy]

/-- The errors of two steps add up. -/
theorem trans (h : Near r t x y) (h' : Near r' t' y z) (hx : 0 ≤ x) (hz : 0 ≤ z)
    (hr : 0 ≤ r ∧ r ≤ 1) (hr' : 0 ≤ r' ∧ r' ≤ 1) (ht : 0 ≤ t) (ht' : 0 ≤ t') :
    Near (r + r') (t + t') x z where
  left :=
    calc (1 - (r + r')) * x ≤ (1 - r') * ((1 - r) * x) := by
          linarith [mul_nonneg (mul_nonneg hr.1 hr'.1) hx]
      _ ≤ (1 - r') * (y + t) := mul_le_mul_of_nonneg_left h.left (sub_nonneg.mpr hr'.2)
      _ ≤ (1 - r') * y + t := by linarith [mul_nonneg hr'.1 ht]
      _ ≤ z + t' + t := by gcongr; exact h'.left
      _ = z + (t + t') := by ring
  right :=
    calc (1 - (r + r')) * z ≤ (1 - r) * ((1 - r') * z) := by
          linarith [mul_nonneg (mul_nonneg hr.1 hr'.1) hz]
      _ ≤ (1 - r) * (y + t') := mul_le_mul_of_nonneg_left h'.right (sub_nonneg.mpr hr.2)
      _ ≤ (1 - r) * y + t' := by linarith [mul_nonneg hr.1 ht']
      _ ≤ x + t + t' := by gcongr; exact h.right
      _ = x + (t + t') := by ring

/-- A sum of several terms has the same relative error, and the absolute ones of all of them. -/
theorem add (h : Near r t x y) (h' : Near r t' x' y') : Near r (t + t') (x + x') (y + y') where
  left := by linarith [h.left, h'.left]
  right := by linarith [h.right, h'.right]

theorem mul_left {c : ℝ} (h : Near r t x y) (hc : 0 ≤ c) : Near r (c * t) (c * x) (c * y) where
  left := by
    have hLeft := mul_le_mul_of_nonneg_left h.left hc
    linarith
  right := by
    have hRight := mul_le_mul_of_nonneg_left h.right hc
    linarith

theorem sum {α : Type} {xs : List α} {f g : α → ℝ} (h : ∀ a ∈ xs, Near r t (f a) (g a)) :
    Near r (xs.length * t) (xs.map f).sum (xs.map g).sum := by
  induction xs with
  | nil => constructor <;> simp
  | cons a xs ih =>
    obtain ⟨hHead, hTail⟩ := List.forall_mem_cons.mp h
    have hLength : ((a :: xs).length : ℝ) * t = t + xs.length * t := by
      rw [List.length_cons, Nat.cast_add_one]
      ring
    rw [hLength, List.map_cons, List.map_cons, List.sum_cons, List.sum_cons]
    exact hHead.add (ih hTail)

end Near

/-! ## One rounding -/

theorem least_le_ulpExponent (x : ℝ) : -1074 ≤ ulpExponent x := le_max_right _ _

theorem abs_roundEven_sub_le {y : ℝ} (hy : 0 ≤ y) : |(roundEven y : ℝ) - y| ≤ 1 / 2 := by
  have hFloor : (⌊y⌋₊ : ℝ) ≤ y := Nat.floor_le hy
  have hNext : y < ⌊y⌋₊ + 1 := Nat.lt_floor_add_one y
  have hEven : ⌊y⌋₊ % 2 ≤ 1 := by omega
  have hEvenReal : ((⌊y⌋₊ % 2 : ℕ) : ℝ) ≤ 1 := by exact_mod_cast hEven
  have hEvenNonneg : (0 : ℝ) ≤ ((⌊y⌋₊ % 2 : ℕ) : ℝ) := Nat.cast_nonneg _
  unfold roundEven
  rw [abs_le]
  split_ifs with hBelow hHalf
  · constructor <;> linarith
  · rw [Nat.cast_add]
    constructor <;> linarith
  · -- past the half way
    have hAbove : ⌊y⌋₊ + 1 / 2 < y := lt_of_le_of_ne (not_lt.mp hBelow) (Ne.symm hHalf)
    rw [Nat.cast_add, Nat.cast_one]
    constructor <;> linarith

/-- A number is rounded by at most half a unit in its last place. -/
theorem abs_nearest_sub_le {x : ℝ} (hx : 0 ≤ x) :
    |nearest x - x| ≤ 2 ^ ulpExponent x / 2 := by
  have hUnit : (0 : ℝ) < 2 ^ ulpExponent x := by positivity
  have hSplit : nearest x - x =
      (roundEven (x / 2 ^ ulpExponent x) - x / 2 ^ ulpExponent x) * 2 ^ ulpExponent x := by
    rw [nearest, sub_mul, div_mul_cancel₀ _ hUnit.ne']
  have hHalf := abs_roundEven_sub_le (div_nonneg hx hUnit.le)
  rw [hSplit, abs_mul, abs_of_pos hUnit]
  calc _ ≤ 1 / 2 * (2 : ℝ) ^ ulpExponent x := by gcongr
    _ = 2 ^ ulpExponent x / 2 := by ring

/-- With all its digits, a number has a unit in the last place that is small against it. -/
theorem half_ulp_le {x : ℝ} (hx : 0 < x) (hUlp : -1074 < ulpExponent x) :
    2 ^ ulpExponent x / 2 ≤ roundoff * x := by
  have hDigits := le_div_ulp hx hUlp
  rw [le_div_iff₀ (by positivity)] at hDigits
  have hRoundoff : roundoff * 2 ^ 52 = 1 / 2 := by
    unfold roundoff
    norm_num
  calc (2 : ℝ) ^ ulpExponent x / 2 = roundoff * 2 ^ 52 * 2 ^ ulpExponent x := by
        rw [hRoundoff]
        ring
    _ = roundoff * (2 ^ 52 * 2 ^ ulpExponent x) := by ring
    _ ≤ roundoff * x := mul_le_mul_of_nonneg_left hDigits roundoff_pos.le

/-- What is at most the errors away is the same up to these errors. -/
theorem near_of_abs_le {x y t : ℝ} (hx : 0 ≤ x) (ht : 0 ≤ t)
    (h : |y - x| ≤ roundoff * x + t) : Near roundoff t x y := by
  obtain ⟨hBelow, hAbove⟩ := abs_le.mp h
  have hSmall := roundoff_le_one
  have hRoundoff := roundoff_pos
  constructor
  · linarith
  · -- the error against the other number is larger by its own square at most
    have hSquare : 0 ≤ roundoff * roundoff * x := by positivity
    have hBounded : (1 - roundoff) * y ≤ (1 - roundoff) * (x + roundoff * x + t) :=
      mul_le_mul_of_nonneg_left (by linarith) (by linarith)
    linarith [mul_nonneg hRoundoff.le ht]

theorem near_nearest {x : ℝ} (hx : 0 ≤ x) : Near roundoff underflow x (nearest x) := by
  obtain rfl | hPos := hx.eq_or_lt
  · rw [nearest_zero]
    exact (Near.refl roundoff_pos.le le_rfl).mono le_rfl underflow_pos.le le_rfl le_rfl
  refine near_of_abs_le hx underflow_pos.le ((abs_nearest_sub_le hx).trans ?_)
  obtain hLeast | hAbove := (least_le_ulpExponent x).eq_or_lt
  · -- the last place is the least one there is
    have hHalf : (2 : ℝ) ^ (-1074 : ℤ) / 2 = underflow := by
      rw [underflow, show (-1075 : ℤ) = -1074 - 1 by norm_num, zpow_sub_one₀ (by norm_num),
        div_eq_mul_inv]
    rw [← hLeast, hHalf]
    exact le_add_of_nonneg_left (mul_nonneg roundoff_pos.le hx)
  · exact (half_ulp_le hPos hAbove).trans (le_add_of_nonneg_right underflow_pos.le)

/-- A whole number of least units is only rounded where it has more than 53 digits. -/
theorem near_nearest_of_units (n : ℕ) :
    Near roundoff 0 (n * 2 ^ (-1074 : ℤ)) (nearest (n * 2 ^ (-1074 : ℤ))) := by
  obtain rfl | hn := Nat.eq_zero_or_pos n
  · rw [Nat.cast_zero, zero_mul, nearest_zero]
    exact Near.refl roundoff_pos.le le_rfl
  have hPos : (0 : ℝ) < n * 2 ^ (-1074 : ℤ) := by positivity
  obtain hLeast | hAbove := (least_le_ulpExponent (n * 2 ^ (-1074 : ℤ))).eq_or_lt
  · -- the last place is that of the units, so that there is nothing to round
    have hUnit : (2 : ℝ) ^ (-1074 : ℤ) ≠ 0 := by positivity
    rw [nearest, ← hLeast, mul_div_cancel_right₀ _ hUnit, roundEven_natCast]
    exact Near.refl roundoff_pos.le hPos.le
  · refine near_of_abs_le hPos.le le_rfl ?_
    rw [add_zero]
    exact (abs_nearest_sub_le hPos.le).trans (half_ulp_le hPos hAbove)

/-! ## Numbers of doubles -/

theorem toReal_rounded {x : ℝ≥0∞} (h : rounded x ≠ ⊤) :
    (rounded x).toReal = nearest x.toReal := by
  have hFinite : ¬ (x = ⊤ ∨ 2 ^ 1024 ≤ nearest x.toReal) := fun hLarge => h (if_pos hLarge)
  rw [rounded, if_neg hFinite, ENNReal.toReal_ofReal (nearest_nonneg _)]

theorem ne_top_of_rounded_ne_top {x : ℝ≥0∞} (h : rounded x ≠ ⊤) : x ≠ ⊤ := by
  rintro rfl
  exact h rounded_top

theorem near_rounded {x : ℝ≥0∞} (h : rounded x ≠ ⊤) :
    Near roundoff underflow x.toReal (rounded x).toReal := by
  rw [toReal_rounded h]
  exact near_nearest ENNReal.toReal_nonneg

/-- The number of a double is a whole number of least units. -/
theorem exists_units {x : ℝ≥0∞} (hDouble : rounded x = x) (hx : x ≠ ⊤) :
    ∃ n : ℕ, x.toReal = n * 2 ^ (-1074 : ℤ) := by
  have hReal := toReal_rounded (hDouble.trans_ne hx)
  rw [hDouble] at hReal
  obtain ⟨shift, hShift⟩ := Int.le.dest (least_le_ulpExponent x.toReal)
  refine ⟨roundEven (x.toReal / 2 ^ ulpExponent x.toReal) * 2 ^ shift, hReal.trans ?_⟩
  rw [nearest, Nat.cast_mul, Nat.cast_pow, Nat.cast_ofNat, mul_assoc, ← zpow_natCast,
    ← zpow_add₀ (by norm_num), add_comm, hShift]

/-- A sum of doubles has a relative error only. -/
theorem near_rounded_add {x y : ℝ≥0∞} (hx : rounded x = x) (hy : rounded y = y)
    (h : rounded (x + y) ≠ ⊤) :
    Near roundoff 0 (x.toReal + y.toReal) (rounded (x + y)).toReal := by
  obtain ⟨hxFinite, hyFinite⟩ := ENNReal.add_ne_top.mp (ne_top_of_rounded_ne_top h)
  obtain ⟨n, hn⟩ := exists_units hx hxFinite
  obtain ⟨n', hn'⟩ := exists_units hy hyFinite
  have hSum : x.toReal + y.toReal = ((n + n' : ℕ) : ℝ) * 2 ^ (-1074 : ℤ) := by
    rw [hn, hn', Nat.cast_add, add_mul]
  rw [toReal_rounded h, ENNReal.toReal_add hxFinite hyFinite, hSum]
  exact near_nearest_of_units (n + n')

end DebtGauge.Double
