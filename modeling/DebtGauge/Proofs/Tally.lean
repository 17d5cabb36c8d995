import DebtGauge.Tally
import Mathlib.Data.List.Basic

/-!
# Tallies over parts of a list

What a tally makes of lists that are cut, filtered or shared out.

Main results:

* `tally_le_mul` — a bound on each item bounds the tally;
* `tally_filter_add_le` — what a stronger test leaves out is missing from the tally;
* `tally_countP_owned` — the shares of several owners add up to what is owned at all.
-/

namespace DebtGauge

theorem tally_map {α β : Type} (count : β → Nat) (f : α → β) (xs : List α) :
    tally count (xs.map f) = tally (fun x => count (f x)) xs := by
  induction xs with
  | nil => rfl
  | cons x xs ih => rw [List.map_cons, tally, tally, ih]

theorem tally_perm {α : Type} (count : α → Nat) {xs ys : List α} (h : xs.Perm ys) :
    tally count xs = tally count ys := by
  induction h with
  | nil => rfl
  | cons x _ ih => rw [tally, tally, ih]
  | swap x y xs => exact Nat.add_left_comm ..
  | trans _ _ ih ih' => exact ih.trans ih'

theorem tally_le_of_sublist {α : Type} (count : α → Nat) {xs ys : List α}
    (h : xs.Sublist ys) : tally count xs ≤ tally count ys := by
  induction h with
  | slnil => exact Nat.le_refl _
  | cons y _ ih => exact Nat.le_trans ih (Nat.le_add_left _ _)
  | cons_cons x _ ih => exact Nat.add_le_add_left ih _

theorem count_le_tally {α : Type} (count : α → Nat) {x : α} {xs : List α} (h : x ∈ xs) :
    count x ≤ tally count xs :=
  tally_le_of_sublist count (List.singleton_sublist.mpr h)

theorem tally_le_tally {α : Type} {count count' : α → Nat} {xs : List α}
    (h : ∀ x ∈ xs, count x ≤ count' x) : tally count xs ≤ tally count' xs := by
  induction xs with
  | nil => exact Nat.le_refl _
  | cons x xs ih =>
    obtain ⟨hHead, hTail⟩ := List.forall_mem_cons.mp h
    exact Nat.add_le_add hHead (ih hTail)

/-- A tally is at most the number of items times the greatest count. -/
theorem tally_le_mul {α : Type} {count : α → Nat} {bound : Nat} {xs : List α}
    (h : ∀ x ∈ xs, count x ≤ bound) : tally count xs ≤ xs.length * bound := by
  induction xs with
  | nil => exact Nat.zero_le _
  | cons x xs ih =>
    have hHead := h x (List.mem_cons_self ..)
    have hRest := ih fun y hy => h y (List.mem_cons_of_mem _ hy)
    rw [tally, List.length_cons, Nat.succ_mul]
    omega

/-- An item that only the weaker of two tests lets through counts on top of what the
stronger one leaves. -/
theorem tally_filter_add_le {α : Type} (count : α → Nat) {p q : α → Bool}
    (hpq : ∀ x, p x → q x) {x : α} (hp : p x = false) (hq : q x = true) {xs : List α}
    (hx : x ∈ xs) : tally count (xs.filter p) + count x ≤ tally count (xs.filter q) := by
  induction xs with
  | nil => simp at hx
  | cons y ys ih =>
    by_cases hyx : y = x
    · -- the item itself: of the rest, the weaker test leaves at least as much
      subst hyx
      have hRest : tally count (ys.filter p) ≤ tally count (ys.filter q) :=
        tally_le_of_sublist count (List.monotone_filter_right ys hpq)
      simp only [List.filter_cons, hp, hq, Bool.false_eq_true, if_false, if_true, tally]
      omega
    · have hRest := ih ((List.mem_cons.mp hx).resolve_left (Ne.symm hyx))
      by_cases hpy : p y = true
      · simp only [List.filter_cons, hpy, hpq y hpy, if_true, tally]
        omega
      · -- another item: whatever the weaker test does with it, nothing is lost
        have hSub : (ys.filter q).Sublist ((y :: ys).filter q) :=
          (List.sublist_cons_self y ys).filter q
        have hMore := tally_le_of_sublist count hSub
        simp only [List.filter_cons_of_neg hpy]
        omega

theorem tally_filterMap {α β : Type} (count : β → Nat) (f : α → Option β) (xs : List α) :
    tally count (xs.filterMap f) = tally (fun x => (f x).elim 0 count) xs := by
  induction xs with
  | nil => rfl
  | cons x xs ih =>
    cases hf : f x with
    | none => rw [List.filterMap_cons_none hf, tally, hf, Option.elim_none, Nat.zero_add, ih]
    | some y => rw [List.filterMap_cons_some hf, tally, tally, hf, Option.elim_some, ih]

/-- If no item has two owners, then what the owners have adds up to the items with one. -/
theorem tally_countP_owned {α β : Type} (owns : β → α → Bool)
    (hUnique : ∀ x owner owner', owns owner x → owns owner' x → owner = owner') (xs : List α)
    {owners : List β} (hNodup : owners.Nodup) :
    tally (fun owner => xs.countP (owns owner)) owners =
      xs.countP fun x => owners.any (owns · x) := by
  induction owners with
  | nil => simp [tally]
  | cons owner owners ih =>
    obtain ⟨hNew, hNodup⟩ := List.nodup_cons.mp hNodup
    rw [tally, ih hNodup, List.countP_eq_countP_filter_add xs
      (fun x => (owner :: owners).any (owns · x)) (owns owner), List.countP_filter,
      List.countP_filter]
    congr 1
    · refine List.countP_congr fun x _ => ?_
      rw [List.any_cons]
      cases owns owner x <;> simp
    · refine List.countP_congr fun x _ => ?_
      -- whoever else owns the item, it is not the owner at the head
      have hOther : owners.any (owns · x) = true → owns owner x = false := by
        intro hAny
        obtain ⟨other, hOther, hOwns⟩ := List.any_eq_true.mp hAny
        rw [← Bool.not_eq_true]
        exact fun hHead => hNew (hUnique x owner other hHead hOwns ▸ hOther)
      by_cases hAny : owners.any (owns · x) = true
      · simp [hAny, hOther hAny]
      · simp only [hAny, List.any_cons, Bool.or_false]
        simp

end DebtGauge
