import DebtGauge.ImportGraph.Cycles
import Mathlib.Data.List.Basic

/-!
# Keys of cycles

Cycles are told apart by their keys: the sorted texts of their paths, joined with bars.
Cycles over the same files always have the same key. The converse needs paths without a
bar: then the key can be split at the bars again.

Main results:

* `key_eq_of_perm` — the key does not depend on the order of the files.
* `mem_files_iff_of_key_eq` — without bars in paths, cycles of one key have the same files.
* `pairwise_distinctBy`, `exists_mem_distinctBy` — what sorting out by keys leaves: no key
  twice, and for each item one of its key.
-/

namespace DebtGauge

namespace Cycle

/-- The sorted texts of the paths of a cycle. -/
def sortedTexts (cycle : Cycle) : List String :=
  (cycle.files.map (·.text)).mergeSort fun a b => a ≤ b

theorem key_eq (cycle : Cycle) : cycle.key = "|".intercalate cycle.sortedTexts := rfl

theorem sortedTexts_perm (cycle : Cycle) :
    cycle.sortedTexts.Perm (cycle.files.map (·.text)) :=
  List.mergeSort_perm _ _

theorem pairwise_sortedTexts (cycle : Cycle) : cycle.sortedTexts.Pairwise (· ≤ ·) := by
  have hSorted : cycle.sortedTexts.Pairwise fun a b => decide (a ≤ b) = true := by
    refine List.pairwise_mergeSort ?_ ?_ _
    · intro a b c hab hbc
      simp only [decide_eq_true_eq] at hab hbc ⊢
      exact String.le_trans hab hbc
    · intro a b
      simpa using String.le_total a b
  exact hSorted.imp fun h => of_decide_eq_true h

/-- The key does not depend on the order of the files. -/
theorem key_eq_of_perm {a b : Cycle} (h : a.files.Perm b.files) : a.key = b.key := by
  have hTexts : a.sortedTexts.Perm b.sortedTexts :=
    (a.sortedTexts_perm.trans (h.map _)).trans b.sortedTexts_perm.symm
  have hEq : a.sortedTexts = b.sortedTexts :=
    hTexts.eq_of_pairwise (fun _ _ _ _ => String.le_antisymm) a.pairwise_sortedTexts
      b.pairwise_sortedTexts
  rw [key_eq, key_eq, hEq]

/-- Without bars in its paths, the sorted texts of a cycle are the pieces of its key. -/
theorem splitOn_key {cycle : Cycle} (hne : cycle.files ≠ [])
    (hBar : ∀ file ∈ cycle.files, '|' ∉ file.text.toList) :
    cycle.key.toList.splitOn '|' = cycle.sortedTexts.map String.toList := by
  rw [key_eq, String.toList_intercalate]
  -- no piece holds the separator, and there is at least one piece
  refine List.splitOn_intercalate '|' ?_ ?_
  · intro piece hPiece
    obtain ⟨text, hText, rfl⟩ := List.mem_map.mp hPiece
    obtain ⟨file, hFile, rfl⟩ := List.mem_map.mp (cycle.sortedTexts_perm.subset hText)
    exact hBar file hFile
  · intro hNil
    have hLength := cycle.sortedTexts_perm.length_eq
    rw [List.map_eq_nil_iff.mp hNil, List.length_map] at hLength
    exact hne (List.length_eq_zero_iff.mp hLength.symm)

theorem mem_files_iff_mem_sortedTexts {cycle : Cycle} {file : FilePath} :
    file ∈ cycle.files ↔ file.text ∈ cycle.sortedTexts := by
  rw [cycle.sortedTexts_perm.mem_iff, List.mem_map]
  constructor
  · exact fun hFile => ⟨file, hFile, rfl⟩
  · rintro ⟨other, hOther, hText⟩
    obtain rfl : other = file := by
      cases other
      cases file
      exact congrArg FilePath.mk hText
    exact hOther

/-- Without bars in paths, cycles of one key have the same files. -/
theorem mem_files_iff_of_key_eq {a b : Cycle} (ha : a.files ≠ []) (hb : b.files ≠ [])
    (hBarA : ∀ file ∈ a.files, '|' ∉ file.text.toList)
    (hBarB : ∀ file ∈ b.files, '|' ∉ file.text.toList) (hKey : a.key = b.key)
    (file : FilePath) : file ∈ a.files ↔ file ∈ b.files := by
  have hPieces : a.sortedTexts.map String.toList = b.sortedTexts.map String.toList := by
    rw [← splitOn_key ha hBarA, ← splitOn_key hb hBarB, hKey]
  have hTexts : a.sortedTexts = b.sortedTexts :=
    List.map_injective_iff.mpr (fun _ _ h => String.toList_inj.mp h) hPieces
  rw [mem_files_iff_mem_sortedTexts, mem_files_iff_mem_sortedTexts, hTexts]

end Cycle

/-! ## Sorting out by keys -/

section DistinctBy

variable {α β : Type} [DecidableEq β] {key : α → β}

theorem distinctBy_sublist (seen : List β) (xs : List α) :
    (distinctBy key seen xs).Sublist xs := by
  induction xs generalizing seen with
  | nil => exact List.nil_sublist _
  | cons x xs ih =>
    unfold distinctBy
    split
    · exact (ih seen).cons x
    · exact (ih _).cons_cons x

theorem key_notMem_of_mem_distinctBy {seen : List β} {xs : List α} {x : α}
    (hx : x ∈ distinctBy key seen xs) : key x ∉ seen := by
  induction xs generalizing seen with
  | nil => simp [distinctBy] at hx
  | cons y ys ih =>
    unfold distinctBy at hx
    split at hx
    case isTrue => exact ih hx
    case isFalse hNew =>
      rcases List.mem_cons.mp hx with rfl | hx
      · exact hNew
      · exact fun hSeen => ih hx (List.mem_cons_of_mem _ hSeen)

/-- No key is left twice. -/
theorem pairwise_distinctBy (seen : List β) (xs : List α) :
    (distinctBy key seen xs).Pairwise fun x y => key x ≠ key y := by
  induction xs generalizing seen with
  | nil => exact List.Pairwise.nil
  | cons x xs ih =>
    unfold distinctBy
    split
    · exact ih seen
    · refine List.pairwise_cons.mpr ⟨?_, ih _⟩
      intro y hy hKey
      exact key_notMem_of_mem_distinctBy hy (hKey ▸ List.mem_cons_self ..)

/-- Of every key that was not met before, one item is left. -/
theorem exists_mem_distinctBy {seen : List β} {xs : List α} {x : α} (hx : x ∈ xs)
    (hNew : key x ∉ seen) : ∃ y ∈ distinctBy key seen xs, key y = key x := by
  induction xs generalizing seen with
  | nil => simp at hx
  | cons z zs ih =>
    unfold distinctBy
    split
    case isTrue hSeen =>
      rcases List.mem_cons.mp hx with rfl | hx
      · exact absurd hSeen hNew
      · exact ih hx hNew
    case isFalse =>
      -- the head is kept: it may be of the key that is looked for itself
      by_cases hKey : key z = key x
      · exact ⟨z, List.mem_cons_self .., hKey⟩
      · have hx : x ∈ zs := (List.mem_cons.mp hx).resolve_left fun h => hKey (h ▸ rfl)
        have hNew : key x ∉ key z :: seen := by simp [Ne.symm hKey, hNew]
        obtain ⟨y, hy, hyx⟩ := ih hx hNew
        exact ⟨y, List.mem_cons_of_mem _ hy, hyx⟩

end DistinctBy

end DebtGauge
