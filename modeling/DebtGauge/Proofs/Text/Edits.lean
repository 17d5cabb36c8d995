import DebtGauge.Proofs.Text.EditDistance
import Mathlib.Order.Bounds.Basic

/-!
# The edit distance counts edits

An edit inserts, deletes or replaces one character anywhere in a text. The edit distance of two
texts is the least number of edits that lead from one to the other.

Edits are hard to count as they come, since a later one may undo an earlier one. In an alignment
they stand in the order of the text, each character of either text being kept, replaced, deleted
or inserted once. Any edits can be brought into that form, and their number does not grow.

Main definitions:

* `Edit`, `EditedIn` — one edit, and a number of edits one after the other;
* `Aligned` — an alignment of two texts with a number of characters that are not kept.

Main results:

* `Aligned.edit` — one more edit costs an alignment at most one;
* `aligned_levenshtein`, `levenshtein_le` — the Levenshtein distance is the least cost of an
  alignment;
* `isLeast_editDistance` — the edit distance is the least number of edits;
* `length_sub_le_editDistance`, `editDistance_le_max` — what the lengths say about it.
-/

namespace DebtGauge.Text

/-- One character of a text is inserted, deleted or replaced. -/
inductive Edit : List Char → List Char → Prop
  | insert (before after : List Char) (c : Char) : Edit (before ++ after) (before ++ c :: after)
  | delete (before after : List Char) (c : Char) : Edit (before ++ c :: after) (before ++ after)
  | replace (before after : List Char) (c d : Char) :
    Edit (before ++ c :: after) (before ++ d :: after)

/-- A text becomes another one by so many edits, one after the other. -/
inductive EditedIn : Nat → List Char → List Char → Prop
  | refl (text : List Char) : EditedIn 0 text text
  | step {n : Nat} {a b c : List Char} : EditedIn n a b → Edit b c → EditedIn (n + 1) a c

/-- Two texts side by side, with so many places at which they differ. -/
inductive Aligned : Nat → List Char → List Char → Prop
  | nil : Aligned 0 [] []
  | keep {n : Nat} {a b : List Char} (c : Char) : Aligned n a b → Aligned n (c :: a) (c :: b)
  | replace {n : Nat} {a b : List Char} (c d : Char) :
    Aligned n a b → Aligned (n + 1) (c :: a) (d :: b)
  | delete {n : Nat} {a b : List Char} (c : Char) : Aligned n a b → Aligned (n + 1) (c :: a) b
  | insert {n : Nat} {a b : List Char} (d : Char) : Aligned n a b → Aligned (n + 1) a (d :: b)

variable {a b c : List Char} {m n : Nat}

/-! ## Alignments -/

namespace Aligned

theorem refl (text : List Char) : Aligned 0 text text := by
  induction text with
  | nil => exact .nil
  | cons c text ih => exact .keep c ih

theorem append {a' b' : List Char} (h : Aligned m a b) (h' : Aligned n a' b') :
    Aligned (m + n) (a ++ a') (b ++ b') := by
  induction h with
  | nil =>
    rw [Nat.zero_add]
    exact h'
  | keep c _ ih => exact .keep c ih
  | replace c d _ ih =>
    rw [Nat.succ_add]
    exact .replace c d ih
  | delete c _ ih =>
    rw [Nat.succ_add]
    exact .delete c ih
  | insert d _ ih =>
    rw [Nat.succ_add]
    exact .insert d ih

theorem reverse (h : Aligned n a b) : Aligned n a.reverse b.reverse := by
  induction h with
  | nil => exact .nil
  | keep c _ ih =>
    rw [List.reverse_cons, List.reverse_cons]
    exact ih.append (.refl [c])
  | replace c d _ ih =>
    rw [List.reverse_cons, List.reverse_cons]
    exact ih.append (.replace c d .nil)
  | @delete _ _ b c _ ih =>
    rw [List.reverse_cons, ← List.append_nil b.reverse]
    exact ih.append (.delete c .nil)
  | @insert _ a _ d _ ih =>
    rw [List.reverse_cons, ← List.append_nil a.reverse]
    exact ih.append (.insert d .nil)

/-- An alignment can be cut wherever the second text can. -/
theorem split {before after : List Char} (h : Aligned n a (before ++ after)) :
    ∃ k l first rest, a = first ++ rest ∧ Aligned k first before ∧ Aligned l rest after ∧
      k + l = n := by
  generalize hText : before ++ after = text at h
  induction h generalizing before with
  | nil =>
    obtain ⟨rfl, rfl⟩ := List.append_eq_nil_iff.mp hText
    exact ⟨0, 0, [], [], rfl, .nil, .nil, rfl⟩
  | @delete n a _ c _ ih =>
    -- a deleted character goes with what stands in front of the cut
    obtain ⟨k, l, first, rest, rfl, hFirst, hRest, rfl⟩ := ih hText
    exact ⟨k + 1, l, c :: first, rest, rfl, .delete c hFirst, hRest, by omega⟩
  | @keep n a b c hTail ih =>
    cases before with
    | nil =>
      -- cut in front of everything: nothing is aligned there
      refine ⟨0, n, [], c :: a, rfl, .nil, ?_, Nat.zero_add n⟩
      rw [show after = c :: b from hText]
      exact .keep c hTail
    | cons d before =>
      obtain ⟨rfl, hBehind⟩ := List.cons.inj hText
      obtain ⟨k, l, first, rest, rfl, hFirst, hRest, rfl⟩ := ih hBehind
      exact ⟨k, l, d :: first, rest, rfl, .keep d hFirst, hRest, rfl⟩
  | @replace n a b c d hTail ih =>
    cases before with
    | nil =>
      refine ⟨0, n + 1, [], c :: a, rfl, .nil, ?_, Nat.zero_add _⟩
      rw [show after = d :: b from hText]
      exact .replace c d hTail
    | cons e before =>
      obtain ⟨rfl, hBehind⟩ := List.cons.inj hText
      obtain ⟨k, l, first, rest, rfl, hFirst, hRest, rfl⟩ := ih hBehind
      exact ⟨k + 1, l, c :: first, rest, rfl, .replace c e hFirst, hRest, by omega⟩
  | @insert n a b d hTail ih =>
    cases before with
    | nil =>
      refine ⟨0, n + 1, [], a, rfl, .nil, ?_, Nat.zero_add _⟩
      rw [show after = d :: b from hText]
      exact .insert d hTail
    | cons e before =>
      obtain ⟨rfl, hBehind⟩ := List.cons.inj hText
      obtain ⟨k, l, first, rest, rfl, hFirst, hRest, rfl⟩ := ih hBehind
      exact ⟨k + 1, l, first, rest, rfl, .insert e hFirst, hRest, by omega⟩

/-- The second text loses its first character. -/
theorem exists_tail {d : Char} (h : Aligned n a (d :: b)) : ∃ m ≤ n + 1, Aligned m a b := by
  generalize hText : d :: b = text at h
  induction h with
  | nil => cases hText
  | @keep n _ _ _ hTail =>
    cases hText
    exact ⟨n + 1, le_rfl, .delete d hTail⟩
  | @replace n _ _ c _ hTail =>
    cases hText
    exact ⟨n + 1, by omega, .delete c hTail⟩
  | @delete n _ _ c _ ih =>
    -- the first character of the second text comes later in the alignment
    obtain ⟨m, hLess, hTail⟩ := ih hText
    exact ⟨m + 1, by omega, .delete c hTail⟩
  | @insert n _ _ _ hTail =>
    cases hText
    exact ⟨n, by omega, hTail⟩

/-- The second text gets another first character. -/
theorem exists_replace {d : Char} (h : Aligned n a (d :: b)) (e : Char) :
    ∃ m ≤ n + 1, Aligned m a (e :: b) := by
  generalize hText : d :: b = text at h
  induction h with
  | nil => cases hText
  | @keep n _ _ _ hTail =>
    cases hText
    exact ⟨n + 1, le_rfl, .replace d e hTail⟩
  | @replace n _ _ c _ hTail =>
    cases hText
    exact ⟨n + 1, by omega, .replace c e hTail⟩
  | @delete n _ _ c _ ih =>
    obtain ⟨m, hLess, hTail⟩ := ih hText
    exact ⟨m + 1, by omega, .delete c hTail⟩
  | @insert n _ _ _ hTail =>
    cases hText
    exact ⟨n + 1, by omega, .insert e hTail⟩

/-- One more edit costs an alignment at most one: it is cut where the edit takes place. -/
theorem edit (h : Aligned n a b) (hEdit : Edit b c) : ∃ m ≤ n + 1, Aligned m a c := by
  cases hEdit with
  | insert before after d =>
    obtain ⟨k, l, first, rest, rfl, hFirst, hRest, rfl⟩ := h.split
    exact ⟨k + (l + 1), by omega, hFirst.append (.insert d hRest)⟩
  | delete before after d =>
    obtain ⟨k, l, first, rest, rfl, hFirst, hRest, rfl⟩ := h.split
    obtain ⟨m, hLess, hTail⟩ := hRest.exists_tail
    exact ⟨k + m, by omega, hFirst.append hTail⟩
  | replace before after d e =>
    obtain ⟨k, l, first, rest, rfl, hFirst, hRest, rfl⟩ := h.split
    obtain ⟨m, hLess, hTail⟩ := hRest.exists_replace e
    exact ⟨k + m, by omega, hFirst.append hTail⟩

theorem length_le (h : Aligned n a b) : a.length ≤ b.length + n ∧ b.length ≤ a.length + n := by
  induction h with
  | nil => exact ⟨le_rfl, le_rfl⟩
  | keep | replace | delete | insert =>
    simp only [List.length_cons]
    omega

end Aligned

/-! ## Alignments and edits -/

theorem Edit.cons (h : Edit a b) (c : Char) : Edit (c :: a) (c :: b) := by
  cases h with
  | insert before after d => exact .insert (c :: before) after d
  | delete before after d => exact .delete (c :: before) after d
  | replace before after d e => exact .replace (c :: before) after d e

theorem EditedIn.cons (h : EditedIn n a b) (c : Char) : EditedIn n (c :: a) (c :: b) := by
  induction h with
  | refl text => exact .refl (c :: text)
  | step _ hEdit ih => exact .step ih (hEdit.cons c)

/-- An alignment is a way to edit the text from its end to its beginning. -/
theorem Aligned.editedIn (h : Aligned n a b) : EditedIn n a b := by
  induction h with
  | nil => exact .refl []
  | keep c _ ih => exact ih.cons c
  | replace c d _ ih => exact .step (ih.cons c) (.replace [] _ c d)
  | delete c _ ih => exact .step (ih.cons c) (.delete [] _ c)
  | insert d _ ih => exact .step ih (.insert [] _ d)

theorem EditedIn.exists_aligned (h : EditedIn n a b) : ∃ m ≤ n, Aligned m a b := by
  induction h with
  | refl text => exact ⟨0, le_rfl, .refl text⟩
  | step _ hEdit ih =>
    obtain ⟨k, hk, hAligned⟩ := ih
    obtain ⟨m, hm, hNext⟩ := hAligned.edit hEdit
    exact ⟨m, by omega, hNext⟩

/-! ## The Levenshtein distance -/

theorem levenshtein_cons_left_le (x : Char) (a b : List Char) :
    levenshtein (x :: a) b ≤ levenshtein a b + 1 := by
  cases b with
  | nil => simp
  | cons y b =>
    rw [levenshtein_cons_cons]
    exact Nat.min_le_left ..

theorem levenshtein_cons_right_le (y : Char) (a b : List Char) :
    levenshtein a (y :: b) ≤ levenshtein a b + 1 := by
  rw [levenshtein_comm a, levenshtein_comm a]
  exact levenshtein_cons_left_le y b a

theorem levenshtein_cons_cons_le (x y : Char) (a b : List Char) :
    levenshtein (x :: a) (y :: b) ≤ levenshtein a b + if x = y then 0 else 1 := by
  rw [levenshtein_cons_cons, leastOf]
  omega

theorem levenshtein_le (h : Aligned n a b) : levenshtein a b ≤ n := by
  induction h with
  | nil => simp
  | @keep n a b c _ ih =>
    have hHead := levenshtein_cons_cons_le c c a b
    rw [if_pos rfl] at hHead
    omega
  | @replace n a b c d _ ih =>
    have hHead := levenshtein_cons_cons_le c d a b
    split at hHead <;> omega
  | @delete n a b c _ ih => exact (levenshtein_cons_left_le c a b).trans (by omega)
  | @insert n a b d _ ih => exact (levenshtein_cons_right_le d a b).trans (by omega)

theorem leastOf_eq_or (k l m : Nat) : leastOf k l m = k ∨ leastOf k l m = l ∨ leastOf k l m = m := by
  unfold leastOf
  omega

/-- The recursion finds an alignment, the case that is least saying how it begins. -/
theorem aligned_levenshtein (a b : List Char) : Aligned (levenshtein a b) a b := by
  induction a generalizing b with
  | nil =>
    rw [levenshtein_nil_left]
    induction b with
    | nil => exact .nil
    | cons d b ih => exact .insert d ih
  | cons c a ih =>
    induction b with
    | nil =>
      have hRest := ih []
      rw [levenshtein_nil_right] at hRest ⊢
      exact .delete c hRest
    | cons d b ihInner =>
      rw [levenshtein_cons_cons]
      rcases leastOf_eq_or (levenshtein a (d :: b) + 1) (levenshtein (c :: a) b + 1)
        (levenshtein a b + if c = d then 0 else 1) with hLeast | hLeast | hLeast
      · -- the first text is shortened
        rw [hLeast]
        exact .delete c (ih (d :: b))
      · -- the second text is shortened
        rw [hLeast]
        exact .insert d ihInner
      · -- both are, at no cost if they start with the same character
        rw [hLeast]
        by_cases hEq : c = d
        · rw [if_pos hEq, hEq]
          exact .keep d (ih b)
        · rw [if_neg hEq]
          exact .replace c d (ih b)

theorem levenshtein_le_max (a b : List Char) : levenshtein a b ≤ max a.length b.length := by
  induction a generalizing b with
  | nil => simp
  | cons c a ih =>
    cases b with
    | nil => simp
    | cons d b =>
      -- character against character: the longer text decides
      have hHead := levenshtein_cons_cons_le c d a b
      have hRest := ih b
      simp only [List.length_cons]
      split at hHead <;> omega

/-! ## The edit distance -/

/-- The distance is the cost of an alignment, as an alignment may be read backwards. -/
theorem aligned_editDistance (a b : List Char) : Aligned (editDistance a b) a b := by
  have hBackwards := (aligned_levenshtein a.reverse b.reverse).reverse
  rwa [List.reverse_reverse, List.reverse_reverse, ← editDistance_eq_levenshtein] at hBackwards

theorem editDistance_le (h : Aligned n a b) : editDistance a b ≤ n := by
  rw [editDistance_eq_levenshtein]
  exact levenshtein_le h.reverse

/-- The edit distance is the least number of edits that turn one text into the other. -/
theorem isLeast_editDistance (a b : List Char) :
    IsLeast {n | EditedIn n a b} (editDistance a b) := by
  refine ⟨(aligned_editDistance a b).editedIn, fun n hEdits => ?_⟩
  -- edits that are fewer would make an alignment that costs less
  obtain ⟨m, hLess, hAligned⟩ := EditedIn.exists_aligned hEdits
  exact (editDistance_le hAligned).trans hLess

@[simp]
theorem editDistance_self (a : List Char) : editDistance a a = 0 :=
  Nat.le_zero.mp (editDistance_le (.refl a))

/-- Texts of different lengths are at least the difference apart. -/
theorem length_sub_le_editDistance (a b : List Char) :
    max a.length b.length - min a.length b.length ≤ editDistance a b := by
  have hLengths := (aligned_editDistance a b).length_le
  omega

theorem editDistance_le_max (a b : List Char) : editDistance a b ≤ max a.length b.length := by
  rw [editDistance_eq_levenshtein]
  have hMax := levenshtein_le_max a.reverse b.reverse
  rwa [List.length_reverse, List.length_reverse] at hMax

end DebtGauge.Text
