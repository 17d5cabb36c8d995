import DebtGauge.FilePath.Order
import Mathlib.Data.List.Nodup

/-!
# Paths in order

Paths are compared lexicographically by their components, and these by their code points. So any
two paths can be compared, and two of them compare as equal just if they have the same
components. Paths with different components can be sorted in one way only, in whatever order they
come.

Main results:

* `comparePaths_eq_eq_iff` — paths that compare as equal;
* `precedes_trans`, `precedes_total` — the order of paths;
* `pairwise_sort`, `sort_eq_of_perm` — paths with different components, sorted.
-/

namespace DebtGauge.FilePath

variable {a b c : FilePath} {paths others : List FilePath}

theorem compareLists_eq_compareLex {α : Type} (compareItems : α → α → Ordering) (xs ys : List α) :
    compareLists compareItems xs ys = xs.compareLex compareItems ys := by
  induction xs generalizing ys with
  | nil => cases ys <;> rfl
  | cons x xs ih =>
    cases ys with
    | nil => rfl
    | cons y ys => rw [compareLists, List.compareLex_cons_cons, ih]

theorem comparePaths_eq_compareLex (a b : FilePath) :
    comparePaths a b = a.key.compareLex (List.compareLex compare) b.key := by
  have hItems : compareLists (compare : Nat → Nat → Ordering) = List.compareLex compare := by
    funext xs ys
    exact compareLists_eq_compareLex compare xs ys
  rw [comparePaths, compareLists_eq_compareLex, hItems]

/-- A key starts with the kind of its component, and that of a name goes on with its code
points. -/
theorem Component.key_injective : Function.Injective Component.key := by
  have hChar : Function.Injective Char.toNat := fun _ _ h => Char.toNat_inj.mp h
  intro a b h
  cases a <;> cases b <;> simp [Component.key, Component.rank] at h ⊢
  case name.name first second =>
    exact String.toList_inj.mp (List.map_injective_iff.mpr hChar h)

/-- Paths compare as equal just if they have the same components. -/
theorem comparePaths_eq_eq_iff : comparePaths a b = .eq ↔ a.components = b.components := by
  rw [comparePaths_eq_compareLex, Std.LawfulEqCmp.compare_eq_iff_eq]
  exact (List.map_injective_iff.mpr Component.key_injective).eq_iff

theorem comparePaths_swap (a b : FilePath) : comparePaths a b = (comparePaths b a).swap := by
  rw [comparePaths_eq_compareLex, comparePaths_eq_compareLex b]
  exact Std.OrientedCmp.eq_swap

theorem precedes_eq_isLE (a b : FilePath) : precedes a b = (comparePaths a b).isLE := by
  unfold precedes
  cases comparePaths a b <;> rfl

theorem precedes_trans (hab : precedes a b = true) (hbc : precedes b c = true) :
    precedes a c = true := by
  simp only [precedes_eq_isLE, comparePaths_eq_compareLex] at hab hbc ⊢
  exact Std.TransCmp.isLE_trans hab hbc

theorem precedes_total (a b : FilePath) : (precedes a b || precedes b a) = true := by
  rw [precedes, precedes, comparePaths_swap b a]
  cases comparePaths a b <;> rfl

/-- Paths that precede each other have the same components. -/
theorem components_eq_of_precedes (hab : precedes a b = true) (hba : precedes b a = true) :
    a.components = b.components := by
  -- both say how `a` compares with `b`, and only equality suits both
  rw [precedes, comparePaths_swap b a] at hba
  rw [precedes] at hab
  refine comparePaths_eq_eq_iff.mp ?_
  cases hCompared : comparePaths a b with
  | eq => rfl
  | lt =>
    rw [hCompared] at hba
    cases hba
  | gt =>
    rw [hCompared] at hab
    cases hab

/-! ## Sorting -/

theorem sort_perm (paths : List FilePath) : (sort paths).Perm paths :=
  List.mergeSort_perm paths precedes

theorem mem_sort : a ∈ sort paths ↔ a ∈ paths :=
  (sort_perm paths).mem_iff

theorem pairwise_precedes_sort (paths : List FilePath) :
    (sort paths).Pairwise fun a b => precedes a b = true := by
  have hTrans : ∀ a b c, precedes a b = true → precedes b c = true → precedes a c = true :=
    fun a b c hab hbc => precedes_trans hab hbc
  exact List.pairwise_mergeSort hTrans precedes_total paths

/-- Sorted paths with different components are strictly increasing. -/
theorem pairwise_sort (h : (paths.map components).Nodup) :
    (sort paths).Pairwise fun a b => comparePaths a b = .lt := by
  have hDifferent : (sort paths).Pairwise fun a b => a.components ≠ b.components :=
    List.pairwise_map.mp (((sort_perm paths).map components).nodup_iff.mpr h)
  refine ((pairwise_precedes_sort paths).and hDifferent).imp fun ⟨hPrecedes, hNe⟩ => ?_
  rw [Ne, ← comparePaths_eq_eq_iff] at hNe
  rw [precedes] at hPrecedes
  -- neither equal nor greater
  cases hCompared : comparePaths _ _ with
  | lt => rfl
  | eq => exact absurd hCompared hNe
  | gt =>
    rw [hCompared] at hPrecedes
    cases hPrecedes

/-- The order in which paths with different components come does not matter. -/
theorem sort_eq_of_perm (hPerm : paths.Perm others) (h : (paths.map components).Nodup) :
    sort paths = sort others := by
  have hSame : (sort paths).Perm (sort others) :=
    (sort_perm paths).trans (hPerm.trans (sort_perm others).symm)
  refine hSame.eq_of_pairwise ?_ (pairwise_precedes_sort paths) (pairwise_precedes_sort others)
  intro a b ha hb hab hba
  -- two of the paths with the same components are the same path
  refine List.inj_on_of_nodup_map h (mem_sort.mp ha) ?_ (components_eq_of_precedes hab hba)
  exact hPerm.mem_iff.mpr (mem_sort.mp hb)

end DebtGauge.FilePath
