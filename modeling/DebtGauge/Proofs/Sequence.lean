import Mathlib.Data.List.Forall2

/-!
# Results item by item

A list of computations that may fail gives a list of results, or the first failure. What
happens in sequence may start anew at some items.

Main results:

* `exists_mapM`, `exists_mapM_ok` — if each item can be turned into a result, so can the list;
* `mapM_eq_ok_map` — a list of computations that do not fail;
* `forall₂_of_mapM`, `mapM_eq_error_iff` — the results of a list are those of its items, and its
  failure is the first one of an item;
* `afterLast`, `afterLast_concat` — what follows the last item of a kind.
-/

namespace DebtGauge

/-- If the items can be turned into results, side by side with another list, so can the
whole list of them. -/
theorem exists_mapM_ok_of_forall₂ {α β γ ε : Type} {f : α → Except ε β} {P : γ → β → Prop}
    {zs : List γ} {xs : List α} (h : List.Forall₂ (fun z x => ∃ y, f x = .ok y ∧ P z y) zs xs) :
    ∃ ys, xs.mapM f = .ok ys ∧ List.Forall₂ P zs ys := by
  induction h with
  | nil => exact ⟨[], rfl, .nil⟩
  | cons hHead _ ih =>
    obtain ⟨y, hy, hP⟩ := hHead
    obtain ⟨ys, hys, hAll⟩ := ih
    refine ⟨y :: ys, ?_, .cons hP hAll⟩
    rw [List.mapM_cons, hy, hys]
    rfl

/-- If each item can be turned into a result, so can the whole list, item by item. -/
theorem exists_mapM_ok {α β ε : Type} {f : α → Except ε β} {P : α → β → Prop} {xs : List α}
    (h : ∀ x ∈ xs, ∃ y, f x = .ok y ∧ P x y) :
    ∃ ys, xs.mapM f = .ok ys ∧ List.Forall₂ P xs ys :=
  exists_mapM_ok_of_forall₂ (List.forall₂_same.mpr h)

theorem exists_mapM {α β ε : Type} {f : α → Except ε β} {xs : List α}
    (h : ∀ x ∈ xs, ∃ y, f x = .ok y) : ∃ ys, xs.mapM f = .ok ys := by
  have hAll : ∀ x ∈ xs, ∃ y, f x = .ok y ∧ True := fun x hx => by simpa using h x hx
  obtain ⟨ys, hys, -⟩ := exists_mapM_ok hAll
  exact ⟨ys, hys⟩

/-- If no item fails, the list is changed item by item. -/
theorem mapM_eq_ok_map {α β ε : Type} {f : α → Except ε β} {g : α → β} {xs : List α}
    (h : ∀ x ∈ xs, f x = .ok (g x)) : xs.mapM f = .ok (xs.map g) := by
  induction xs with
  | nil => rfl
  | cons x xs ih =>
    rw [List.mapM_cons, h x (List.mem_cons_self ..), ih fun y hy => h y (List.mem_cons_of_mem _ hy)]
    rfl

theorem exists_of_bind_ok {α β ε : Type} {x : Except ε α} {f : α → Except ε β} {y : β}
    (h : (x >>= f) = .ok y) : ∃ a, x = .ok a ∧ f a = .ok y := by
  cases x with
  | error failure => cases h
  | ok a => exact ⟨a, rfl, h⟩

/-- A computation whose result shows something of itself does not fail. -/
theorem exists_of_toOption_map {α β ε : Type} {x : Except ε α} {f : α → β} {y : β}
    (h : x.toOption.map f = some y) : ∃ a, x = .ok a ∧ f a = y := by
  cases x with
  | error failure => cases h
  | ok a => exact ⟨a, rfl, Option.some.inj h⟩

/-- One computation behind another one does not fail if neither of them does. -/
theorem exists_bind {α β ε : Type} {x : Except ε α} {f : α → Except ε β}
    (hx : ∃ a, x = .ok a) (hf : ∀ a, x = .ok a → ∃ b, f a = .ok b) : ∃ b, (x >>= f) = .ok b := by
  obtain ⟨a, rfl⟩ := hx
  exact hf a rfl

theorem forall₂_of_mapM {α β ε : Type} {f : α → Except ε β} {xs : List α} {ys : List β}
    (h : xs.mapM f = .ok ys) : List.Forall₂ (fun x y => f x = .ok y) xs ys := by
  induction xs generalizing ys with
  | nil =>
    cases h
    exact .nil
  | cons x xs ih =>
    rw [List.mapM_cons] at h
    obtain ⟨y, hy, hRest⟩ := exists_of_bind_ok h
    obtain ⟨rest, hys, hCons⟩ := exists_of_bind_ok hRest
    cases hCons
    exact .cons hy (ih hys)

theorem exists_of_mem_of_forall₂ {α β : Type} {R : α → β → Prop} {xs : List α} {ys : List β}
    {y : β} (h : List.Forall₂ R xs ys) (hy : y ∈ ys) : ∃ x ∈ xs, R x y := by
  induction h with
  | nil => exact absurd hy List.not_mem_nil
  | @cons x z _ _ hFirst hRest ih =>
    rcases List.mem_cons.mp hy with rfl | hy
    · exact ⟨x, List.mem_cons_self .., hFirst⟩
    · obtain ⟨found, hFound, hRelated⟩ := ih hy
      exact ⟨found, List.mem_cons_of_mem _ hFound, hRelated⟩

theorem exists_of_mem_of_mapM {α β ε : Type} {f : α → Except ε β} {xs : List α} {ys : List β}
    {y : β} (h : xs.mapM f = .ok ys) (hy : y ∈ ys) : ∃ x ∈ xs, f x = .ok y := by
  have hAll : List.Forall₂ (fun x y => f x = .ok y) xs ys := forall₂_of_mapM h
  obtain ⟨x, hx, hResult⟩ := exists_of_mem_of_forall₂ hAll hy
  exact ⟨x, hx, hResult⟩

/-- A list fails with the first of its items that fails. -/
theorem mapM_eq_error_iff {α β ε : Type} {f : α → Except ε β} {xs : List α} {failure : ε} :
    xs.mapM f = .error failure ↔ ∃ before x after, xs = before ++ x :: after ∧
      (∀ earlier ∈ before, ∃ y, f earlier = .ok y) ∧ f x = .error failure := by
  constructor
  · intro h
    induction xs with
    | nil => cases h
    | cons x xs ih =>
      cases hx : f x with
      | error other =>
        rw [List.mapM_cons, hx] at h
        cases h
        exact ⟨[], x, xs, rfl, fun _ hMem => absurd hMem List.not_mem_nil, hx⟩
      | ok y =>
        -- the failure comes from behind the first item
        have hRest : xs.mapM f = .error failure := by
          rw [List.mapM_cons, hx] at h
          cases hRest : xs.mapM f with
          | error other =>
            rw [hRest] at h
            cases h
            rfl
          | ok ys =>
            rw [hRest] at h
            cases h
        obtain ⟨before, item, after, rfl, hBefore, hItem⟩ := ih hRest
        exact ⟨x :: before, item, after, rfl, List.forall_mem_cons.mpr ⟨⟨y, hx⟩, hBefore⟩, hItem⟩
  · rintro ⟨before, x, after, rfl, hBefore, hx⟩
    induction before with
    | nil =>
      rw [List.nil_append, List.mapM_cons, hx]
      rfl
    | cons first before ih =>
      obtain ⟨⟨y, hy⟩, hRest⟩ := List.forall_mem_cons.mp hBefore
      rw [List.cons_append, List.mapM_cons, hy, ih hRest]
      rfl

/-- The items after the last one of a kind, or all if there is none. -/
def afterLast {α : Type} (isLast : α → Bool) (xs : List α) : List α :=
  (xs.reverse.takeWhile (!isLast ·)).reverse

theorem afterLast_concat {α : Type} (isLast : α → Bool) (xs : List α) (x : α) :
    afterLast isLast (xs ++ [x]) = if isLast x then [] else afterLast isLast xs ++ [x] := by
  unfold afterLast
  rw [List.reverse_append, List.reverse_singleton, List.singleton_append, List.takeWhile_cons]
  cases isLast x with
  | true => rfl
  | false => simp

end DebtGauge
