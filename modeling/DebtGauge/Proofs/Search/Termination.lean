import DebtGauge.Proofs.Search.Invariant
import DebtGauge.Proofs.Tally

/-!
# The end of a search

The number of steps that `Search.complete` allows is a bound and not a cut: a search over
vertices whose edges stay among them always comes to its end. `remaining` pays for every
step in advance. A root costs one step; a vertex that was not entered costs one step for
each edge, one for leaving it and one more, and pays its frame when it is entered.

Main results:

* `remaining_lt_of_move` — every move uses up at least one step.
* `complete_finished` — a whole search ends with no trail and no roots left.
-/

namespace DebtGauge.Search

variable {α : Type} [DecidableEq α] {next : α → List α} {vertices : List α}

/-- The number of steps that a search may still make. -/
def remaining (next : α → List α) (vertices : List α) (search : Search α) : Nat :=
  search.roots.length + tally (fun frame => frame.pending.length + 1) search.frames +
    tally (fun vertex => (next vertex).length + 2) (vertices.filter (· ∉ search.visited))

theorem remaining_start (next : α → List α) (vertices : List α) :
    remaining next vertices (start vertices) = stepBound next vertices := by
  have hSplit : ∀ xs : List α, xs.length + tally (fun vertex => (next vertex).length + 2) xs =
      tally (fun vertex => (next vertex).length + 3) xs := by
    intro xs
    induction xs with
    | nil => rfl
    | cons x xs ih =>
      simp only [List.length_cons, tally]
      omega
  have hAll : vertices.filter (· ∉ (start vertices).visited) = vertices := by
    simp [start]
  rw [remaining, hAll, stepBound, ← hSplit]
  simp [start, tally]

/-- Entering a vertex pays for its frame, with one step left over. -/
theorem remaining_enter_lt {search : Search α} {vertex : α} (hKnown : vertex ∈ vertices)
    (hNew : vertex ∉ search.visited) :
    remaining next vertices (search.enter vertex (next vertex)) <
      remaining next vertices search := by
  have hPaid : tally (fun vertex => (next vertex).length + 2)
        (vertices.filter (· ∉ (search.enter vertex (next vertex)).visited)) +
        ((next vertex).length + 2) ≤
      tally (fun vertex => (next vertex).length + 2) (vertices.filter (· ∉ search.visited)) :=
    tally_filter_add_le _ (by simp [enter]) (by simp [enter]) (by simpa using hNew) hKnown
  have hFrame : tally (fun frame => frame.pending.length + 1)
      (search.enter vertex (next vertex)).frames =
      (next vertex).length + 1 + tally (fun frame => frame.pending.length + 1) search.frames := rfl
  have hRoots : (search.enter vertex (next vertex)).roots = search.roots := rfl
  unfold remaining
  rw [hFrame, hRoots]
  omega

/-- Every move uses up at least one step. -/
theorem remaining_lt_of_move {search after : Search α} (h : Invariant next vertices search)
    (hStay : EdgesStay next vertices) (move : Move next search after) :
    remaining next vertices after < remaining next vertices search := by
  cases move with
  | passRoot hFrames hRoots hSeen => simp [remaining, hRoots]
  | @enterRoot root roots hFrames hRoots hNew =>
    have hKnown : root ∈ vertices := h.roots_known root (by simp [hRoots])
    -- the root is paid for by its own step, the vertex by the steps kept for it
    have hTaken : remaining next vertices { search with roots } <
        remaining next vertices search := by simp [remaining, hRoots]
    exact lt_trans (remaining_enter_lt hKnown (by exact hNew)) hTaken
  | leave hFrames => simp [remaining, Search.leave, hFrames, tally]
  | @descend vertex target pending frames hFrames hNew =>
    have hKnown : target ∈ vertices := h.target_known hStay hFrames
    have hLooked : remaining next vertices { search with frames := ⟨vertex, pending⟩ :: frames } <
        remaining next vertices search := by simp [remaining, hFrames, tally]
    exact lt_trans (remaining_enter_lt hKnown (by exact hNew)) hLooked
  | closeLoop hFrames hSeen hActive =>
    have hTrail := (h.active_iff _).mp hActive
    rw [close_of_mem ((trail_lookedAt hFrames).symm ▸ hTrail)]
    simp [remaining, hFrames, tally]
  | passEdge hFrames hSeen hLeft => simp [remaining, hFrames, tally]

/-- A search that is given as many steps as it may still make comes to its end. -/
theorem run_finished (hStay : EdgesStay next vertices) (steps : Nat) {search : Search α}
    (h : Invariant next vertices search) (hSteps : remaining next vertices search ≤ steps) :
    (run next steps search).frames = [] ∧ (run next steps search).roots = [] := by
  induction steps generalizing search with
  | zero =>
    -- a search that may not make a step has none to make
    have hStuck : search.step? next = none := by
      refine Option.eq_none_iff_forall_ne_some.mpr fun after hStep => ?_
      have hLess := remaining_lt_of_move h hStay (move_of_step? hStep)
      omega
    exact step?_eq_none_iff.mp hStuck
  | succ steps ih =>
    unfold run
    split
    case h_1 after hStep =>
      have move := move_of_step? hStep
      have hLess := remaining_lt_of_move h hStay move
      exact ih (h.move hStay move) (by omega)
    case h_2 hStep => exact step?_eq_none_iff.mp hStep

/-- A whole search ends with no trail and no roots left. -/
theorem complete_finished (hStay : EdgesStay next vertices) :
    (complete next vertices).frames = [] ∧ (complete next vertices).roots = [] :=
  run_finished hStay _ (invariant_start next vertices) (remaining_start next vertices).le

end DebtGauge.Search
