import DebtGauge.Proofs.ImportGraph.Cycles

/-!
# Loops of one key

A graph reports the first loop of each key and drops the others. The key joins the sorted
paths of a loop with bars, so it tells apart no more than the pieces between the bars: the
files `a` and `b` have the key of the one file `a|b`. A loop is then dropped for a loop over
other files.

Main results:

* `Cycle.key_eq_iff` — the key of a cycle is as good as the pieces of its paths.
* `mem_cycles_iff` — reported is the first loop of each key.
* `loop_reported_iff` — a loop is reported, up to the order of its files, just if the first
  loop of its pieces is over the same files.
-/

namespace DebtGauge

namespace Cycle

/-- Cycles over the same files. -/
def SameFiles (a b : Cycle) : Prop :=
  ∀ file, file ∈ a.files ↔ file ∈ b.files

/-- The pieces between the bars of the sorted paths of a cycle. -/
def pieces (cycle : Cycle) : List (List Char) :=
  cycle.sortedTexts.flatMap (·.toList.splitOn '|')

/-! ## What a key tells apart -/

theorem splitOn_intercalate_bars {texts : List (List Char)} (hne : texts ≠ []) :
    (List.intercalate ['|'] texts).splitOn '|' = texts.flatMap (·.splitOn '|') := by
  induction texts with
  | nil => exact absurd rfl hne
  | cons text texts ih =>
    cases texts with
    | nil => simp
    | cons next rest =>
      -- the bar that joins two texts is one at which the whole is split
      have hRest := ih (List.cons_ne_nil next rest)
      rw [List.intercalate_cons_cons, List.append_assoc, List.singleton_append,
        List.splitOn_append_cons_self, hRest]
      rfl

theorem sortedTexts_ne_nil {cycle : Cycle} (hne : cycle.files ≠ []) :
    cycle.sortedTexts ≠ [] := by
  intro hNil
  have hLength := cycle.sortedTexts_perm.length_eq
  rw [hNil, List.length_map] at hLength
  exact hne (List.length_eq_zero_iff.mp hLength.symm)

theorem splitOn_key_eq_pieces {cycle : Cycle} (hne : cycle.files ≠ []) :
    cycle.key.toList.splitOn '|' = cycle.pieces := by
  have hTexts : cycle.sortedTexts.map String.toList ≠ [] := by
    simpa using sortedTexts_ne_nil hne
  rw [key_eq, String.toList_intercalate]
  rw [show "|".toList = ['|'] from rfl, splitOn_intercalate_bars hTexts, List.flatMap_map]
  rfl

/-- The key of paths that are sorted already. -/
theorem key_of_pairwise {cycle : Cycle} (h : (cycle.files.map (·.text)).Pairwise (· ≤ ·)) :
    cycle.key = "|".intercalate (cycle.files.map (·.text)) := by
  have hSorted := List.mergeSort_of_pairwise (h.imp fun hab => decide_eq_true hab)
  rw [key_eq, sortedTexts, hSorted]

/-- The key of a cycle is as good as the pieces of its paths. -/
theorem key_eq_iff {a b : Cycle} (ha : a.files ≠ []) (hb : b.files ≠ []) :
    a.key = b.key ↔ a.pieces = b.pieces := by
  rw [← splitOn_key_eq_pieces ha, ← splitOn_key_eq_pieces hb]
  constructor
  · intro h
    rw [h]
  · -- a key is its pieces, joined again
    intro h
    have hJoined := congrArg (List.intercalate ['|']) h
    rw [List.intercalate_splitOn, List.intercalate_splitOn] at hJoined
    exact String.toList_inj.mp hJoined

end Cycle

/-! ## What sorting out by keys keeps -/

/-- Kept is the first item of each key that was not met before. -/
theorem mem_distinctBy_iff {α β : Type} [DecidableEq β] {key : α → β} {seen : List β}
    {xs : List α} {x : α} :
    x ∈ distinctBy key seen xs ↔ key x ∉ seen ∧ xs.find? (key · = key x) = some x := by
  induction xs generalizing seen with
  | nil => simp [distinctBy]
  | cons y ys ih =>
    unfold distinctBy
    split
    case isTrue hSeen =>
      rw [ih, List.find?_cons]
      by_cases hKey : key y = key x
      · -- the key was met before, so that neither side can hold
        have hMet : key x ∈ seen := hKey ▸ hSeen
        simp [hMet]
      · simp [hKey]
    case isFalse hNew =>
      rw [List.mem_cons, ih, List.find?_cons]
      by_cases hKey : key y = key x
      · have hNew' : key x ∉ seen := hKey ▸ hNew
        simp [hKey, hNew', eq_comm]
      · have hne : x ≠ y := fun h => hKey (h ▸ rfl)
        simp [hKey, hne, Ne.symm hKey]

namespace ImportGraph

open Search

variable (graph : ImportGraph)

/-! ## What a graph reports of its loops -/

/-- Reported is the first loop of each key. -/
theorem mem_cycles_iff {cycle : Cycle} :
    cycle ∈ graph.cycles ↔ graph.loops.find? (·.key = cycle.key) = some cycle := by
  unfold cycles
  rw [mem_distinctBy_iff]
  simp

theorem isLoop_of_mem_loops {loop : Cycle} (h : loop ∈ graph.loops) :
    IsLoop graph.dependencies loop.files :=
  graph.search_invariant.closed_loops _ (graph.mem_loops.mp h)

theorem files_known_of_mem_loops {loop : Cycle} (h : loop ∈ graph.loops) :
    ∀ file ∈ loop.files, file ∈ graph.paths :=
  graph.search_invariant.closed_known _ (graph.mem_loops.mp h)

theorem key_eq_of_sameFiles {a b : Cycle} (ha : a ∈ graph.loops) (hb : b ∈ graph.loops)
    (h : a.SameFiles b) : a.key = b.key :=
  Cycle.key_eq_of_perm <| (List.perm_ext_iff_of_nodup (graph.isLoop_of_mem_loops ha).nodup
    (graph.isLoop_of_mem_loops hb).nodup).mpr h

/-- The first loop of the key of a loop is the first one of its pieces. -/
theorem find?_key_eq {loop : Cycle} (hLoop : loop ∈ graph.loops) :
    graph.loops.find? (·.key = loop.key) = graph.loops.find? (·.pieces = loop.pieces) := by
  refine List.find?_congr fun other hOther => ?_
  have hIff := Cycle.key_eq_iff (graph.isLoop_of_mem_loops hOther).ne_nil
    (graph.isLoop_of_mem_loops hLoop).ne_nil
  exact decide_eq_decide.mpr hIff

/-- Without bars in paths, loops of one key are over the same files. -/
theorem sameFiles_of_key_eq (hBar : ∀ path ∈ graph.paths, '|' ∉ path.text.toList) {a b : Cycle}
    (ha : a ∈ graph.loops) (hb : b ∈ graph.loops) (hKey : a.key = b.key) : a.SameFiles b :=
  Cycle.mem_files_iff_of_key_eq (graph.isLoop_of_mem_loops ha).ne_nil
    (graph.isLoop_of_mem_loops hb).ne_nil
    (fun file hFile => hBar file (graph.files_known_of_mem_loops ha file hFile))
    (fun file hFile => hBar file (graph.files_known_of_mem_loops hb file hFile)) hKey

/-- Some loop of the pieces of a loop is reported: the one that was closed first. -/
theorem exists_first {loop : Cycle} (hLoop : loop ∈ graph.loops) :
    ∃ first ∈ graph.cycles, graph.loops.find? (·.pieces = loop.pieces) = some first ∧
      first.key = loop.key := by
  have hSome : (graph.loops.find? (·.key = loop.key)).isSome :=
    List.find?_isSome.mpr ⟨loop, hLoop, by simp⟩
  obtain ⟨first, hFirst⟩ := Option.isSome_iff_exists.mp hSome
  have hKey : first.key = loop.key := by simpa using List.find?_some hFirst
  refine ⟨first, ?_, graph.find?_key_eq hLoop ▸ hFirst, hKey⟩
  rw [mem_cycles_iff, hKey]
  exact hFirst

/-- A loop that the search closes is reported, up to the order of its files, just if the
first loop of its pieces is over the same files. Without bars in paths it always is. -/
theorem loop_reported_iff {loop : Cycle} (hLoop : loop ∈ graph.loops) :
    ((∃ cycle ∈ graph.cycles, cycle.SameFiles loop) ↔
        ∀ first, graph.loops.find? (·.pieces = loop.pieces) = some first →
          first.SameFiles loop) ∧
      ((∀ path ∈ graph.paths, '|' ∉ path.text.toList) →
        ∃ cycle ∈ graph.cycles, cycle.SameFiles loop) := by
  obtain ⟨first, hReported, hFirst, hKey⟩ := graph.exists_first hLoop
  have hClosed := graph.mem_loops_of_mem_cycles hReported
  constructor
  · constructor
    · rintro ⟨cycle, hCycle, hSame⟩ other hOther
      -- a reported cycle over the files of the loop has its key, so it is the first one
      have hCycleKey := graph.key_eq_of_sameFiles (graph.mem_loops_of_mem_cycles hCycle) hLoop hSame
      have hCycleFirst := graph.mem_cycles_iff.mp hCycle
      rw [hCycleKey, graph.find?_key_eq hLoop, hOther, Option.some_inj] at hCycleFirst
      exact hCycleFirst ▸ hSame
    · intro h
      exact ⟨first, hReported, h first hFirst⟩
  · intro hBar
    exact ⟨first, hReported, graph.sameFiles_of_key_eq hBar hClosed hLoop hKey⟩

/-- Two modules that import each other, and one that imports itself and has both names in
its own. -/
def namesWithBar : List ImportStep :=
  [.add ⟨"a.ts|b.ts"⟩ [⟨"a.ts|b.ts"⟩], .add ⟨"a.ts"⟩ [⟨"b.ts"⟩], .add ⟨"b.ts"⟩ [⟨"a.ts"⟩]]

theorem loops_namesWithBar : (after namesWithBar).loops =
    [⟨[⟨"a.ts|b.ts"⟩]⟩, ⟨[⟨"a.ts"⟩, ⟨"b.ts"⟩]⟩] := by
  decide +kernel

theorem loop_reported_iff_namesWithBar :
    (∃ cycle ∈ (after namesWithBar).cycles, cycle.SameFiles ⟨[⟨"a.ts|b.ts"⟩]⟩) ∧
      ∃ cycle ∈ (after mutualImports).cycles, cycle.SameFiles ⟨[⟨"a.ts"⟩, ⟨"b.ts"⟩]⟩ := by
  constructor
  · refine (loop_reported_iff (after namesWithBar) (by simp [loops_namesWithBar])).1.mpr ?_
    intro first hFirst
    rw [loops_namesWithBar, List.find?_cons_of_pos (by simp), Option.some_inj] at hFirst
    exact hFirst ▸ fun file => Iff.rfl
  · exact (loop_reported_iff (after mutualImports) (by decide +kernel)).2 (by decide +kernel)

/-- The loop of the two modules is dropped, as the search has closed the other one before. -/
theorem loop_dropped_at_bar :
    ⟨[⟨"a.ts"⟩, ⟨"b.ts"⟩]⟩ ∈ (after namesWithBar).loops ∧
      ¬ ∃ cycle ∈ (after namesWithBar).cycles, cycle.SameFiles ⟨[⟨"a.ts"⟩, ⟨"b.ts"⟩]⟩ := by
  have hKeys : (⟨[⟨"a.ts"⟩, ⟨"b.ts"⟩]⟩ : Cycle).key = (⟨[⟨"a.ts|b.ts"⟩]⟩ : Cycle).key := by
    rw [Cycle.key_of_pairwise (by decide), Cycle.key_of_pairwise (by decide)]
    decide
  have hCycles : (after namesWithBar).cycles = [⟨[⟨"a.ts|b.ts"⟩]⟩] := by
    rw [cycles, loops_namesWithBar]
    simp [distinctBy, hKeys]
  refine ⟨by simp [loops_namesWithBar], ?_⟩
  rw [hCycles]
  rintro ⟨cycle, hCycle, hSame⟩
  obtain rfl := List.mem_singleton.mp hCycle
  have hFile := (hSame ⟨"a.ts"⟩).mpr (List.mem_cons_self ..)
  exact absurd hFile (by decide)

end ImportGraph

end DebtGauge
