import DebtGauge.Proofs.Search.Since
import DebtGauge.Proofs.Search.Termination

/-!
# Which vertices get on a closed loop

Every vertex is entered once. What a search has visited by then decides whether a loop through
the vertex will be closed: just if a way leads from it back to the trail, past none of these
vertices. The vertex by which a search enters a component can always go back, as nothing of the
component is visited.

Main definitions and results:

* `JustEntered` — the search right after it has entered a vertex;
* `exists_justEntered` — every vertex is entered;
* `mem_closed_iff_leadsBack` — a whole search closes a loop through a vertex just if a way
  led back when it was entered;
* `leadsBack_of_first` — so it does for the first vertex of a component.
-/

namespace DebtGauge.Search

open Relation

variable {α : Type} [DecidableEq α] {next : α → List α} {vertices : List α}

/-- `entry` is the search right after the step that has entered `vertex`. -/
def JustEntered (next : α → List α) (vertices : List α) (vertex : α) (entry : Search α) : Prop :=
  ∃ steps, (run next steps (start vertices)).step? next = some entry ∧
    vertex ∉ (run next steps (start vertices)).visited ∧ vertex ∈ entry.visited

/-! ## Runs in parts -/

theorem run_of_step?_eq_none {search : Search α} (h : search.step? next = none) (steps : Nat) :
    run next steps search = search := by
  cases steps with
  | zero => rfl
  | succ steps => rw [run, h]

theorem run_of_step?_eq_some {search after : Search α} (h : search.step? next = some after)
    (steps : Nat) : run next (steps + 1) search = run next steps after := by
  rw [run, h]

theorem run_add (first second : Nat) (search : Search α) :
    run next (first + second) search = run next second (run next first search) := by
  induction first generalizing search with
  | zero => rw [Nat.zero_add, run]
  | succ first ih =>
    rw [Nat.succ_add]
    cases hStep : search.step? next with
    | none =>
      rw [run_of_step?_eq_none hStep, run_of_step?_eq_none hStep, run_of_step?_eq_none hStep]
    | some after => rw [run_of_step?_eq_some hStep, run_of_step?_eq_some hStep, ih]

theorem run_succ {steps : Nat} {search after : Search α}
    (h : (run next steps search).step? next = some after) :
    run next (steps + 1) search = after := by
  rw [run_add, run_of_step?_eq_some h, run]

/-- What follows a state of a whole search ends where the whole search ends. -/
theorem exists_run_eq_complete (hStay : EdgesStay next vertices) (steps : Nat) :
    ∃ rest, run next rest (run next steps (start vertices)) = complete next vertices := by
  refine ⟨stepBound next vertices, ?_⟩
  have hEnd : (complete next vertices).step? next = none :=
    step?_eq_none_iff.mpr (complete_finished hStay)
  rw [← run_add, Nat.add_comm, run_add]
  exact run_of_step?_eq_none hEnd steps

/-! ## Entries -/

/-- A vertex that was not visited before a run and is visited after it is entered by one of the
steps. -/
theorem exists_step_entering {vertex : α} (steps : Nat) {search : Search α}
    (hBefore : vertex ∉ search.visited) (hAfter : vertex ∈ (run next steps search).visited) :
    ∃ done entry, (run next done search).step? next = some entry ∧
      vertex ∉ (run next done search).visited ∧ vertex ∈ entry.visited := by
  induction steps generalizing search with
  | zero => exact absurd hAfter hBefore
  | succ steps ih =>
    cases hStep : search.step? next with
    | none =>
      rw [run_of_step?_eq_none hStep] at hAfter
      exact absurd hAfter hBefore
    | some after =>
      by_cases hNow : vertex ∈ after.visited
      · exact ⟨0, after, hStep, hBefore, hNow⟩
      · rw [run_of_step?_eq_some hStep] at hAfter
        obtain ⟨done, entry, hEntry⟩ := ih hNow hAfter
        refine ⟨done + 1, entry, ?_⟩
        rwa [run_of_step?_eq_some hStep]

/-- Every vertex is entered in a whole search. -/
theorem exists_justEntered (hStay : EdgesStay next vertices) {vertex : α}
    (hKnown : vertex ∈ vertices) : ∃ entry, JustEntered next vertices vertex entry := by
  have hInv : Invariant next vertices (complete next vertices) := invariant_run hStay _
  have hVisited : vertex ∈ (complete next vertices).visited := by
    refine (hInv.root_or_visited vertex hKnown).resolve_left fun hRoot => ?_
    rw [(complete_finished hStay).2] at hRoot
    exact absurd hRoot List.not_mem_nil
  obtain ⟨done, entry, hEntry⟩ := exists_step_entering _ List.not_mem_nil hVisited
  exact ⟨entry, done, hEntry⟩

/-- Only an entry makes a vertex visited. -/
theorem Move.eq_enter {before entry : Search α} (move : Move next before entry) {vertex : α}
    (hBefore : vertex ∉ before.visited) (hAfter : vertex ∈ entry.visited) :
    ∃ middle : Search α, middle.visited = before.visited ∧ middle.closed = before.closed ∧
      entry = middle.enter vertex (next vertex) := by
  cases move with
  | passRoot | leave | passEdge => exact absurd hAfter hBefore
  | @enterRoot root roots hFrames hRoots hNew =>
    obtain rfl := (List.mem_cons.mp hAfter).resolve_right hBefore
    exact ⟨{ before with roots }, rfl, rfl, rfl⟩
  | @descend top target pending frames hFrames hNew =>
    obtain rfl := (List.mem_cons.mp hAfter).resolve_right hBefore
    exact ⟨{ before with frames := ⟨top, pending⟩ :: frames }, rfl, rfl, rfl⟩
  | closeLoop hFrames hSeen hActive =>
    unfold close at hAfter
    split at hAfter <;> exact absurd hAfter hBefore

/-- A closed loop goes through visited vertices only. -/
theorem closed_visited (hStay : EdgesStay next vertices) (steps : Nat) :
    ∀ loop ∈ (run next steps (start vertices)).closed, ∀ vertex ∈ loop,
      vertex ∈ (run next steps (start vertices)).visited := by
  have hMove : ∀ search after : Search α, (Invariant next vertices search ∧
      ∀ loop ∈ search.closed, ∀ vertex ∈ loop, vertex ∈ search.visited) →
      Move next search after → Invariant next vertices after ∧
        ∀ loop ∈ after.closed, ∀ vertex ∈ loop, vertex ∈ after.visited := by
    rintro search after ⟨hInv, hClosed⟩ move
    refine ⟨hInv.move hStay move, ?_⟩
    cases move with
    | passRoot | leave | passEdge => exact hClosed
    | enterRoot | descend =>
      intro loop hLoop vertex hVertex
      exact List.mem_cons_of_mem _ (hClosed loop hLoop vertex hVertex)
    | closeLoop hFrames hSeen hActive =>
      have hTarget := (hInv.active_iff _).mp hActive
      rw [close_of_mem ((trail_lookedAt hFrames).symm ▸ hTarget), trail_lookedAt hFrames]
      intro loop hLoop vertex hVertex
      rcases List.mem_cons.mp hLoop with rfl | hLoop
      · exact hInv.trail_visited vertex ((List.dropWhile_sublist _).subset hVertex)
      · exact hClosed loop hLoop vertex hVertex
  exact (run_induction hMove steps ⟨invariant_start next vertices, by simp [start]⟩).2

theorem JustEntered.since {vertex : α} {entry : Search α} (hStay : EdgesStay next vertices)
    (h : JustEntered next vertices vertex entry) :
    IsEntry next entry vertex ∧ Since next entry vertex entry := by
  obtain ⟨steps, hStep, hBefore, hAfter⟩ := h
  have hInv : Invariant next vertices entry := run_succ hStep ▸ invariant_run hStay (steps + 1)
  obtain ⟨middle, hVisited, hClosed, rfl⟩ := (move_of_step? hStep).eq_enter hBefore hAfter
  refine ⟨⟨by rw [trail_enter, List.getLast?_concat], hInv.trail_visited⟩, since_enter ?_⟩
  rw [hClosed]
  exact fun loop hLoop hVertex => hBefore (closed_visited hStay steps loop hLoop vertex hVertex)

/-! ## Main results -/

/-- A whole search closes a loop through a vertex just if a way led from the vertex back to the
trail when it was entered, past none of the vertices visited by then. -/
theorem mem_closed_iff_leadsBack (hStay : EdgesStay next vertices) {vertex : α}
    {entry : Search α} (h : JustEntered next vertices vertex entry) :
    (∃ loop ∈ (complete next vertices).closed, vertex ∈ loop) ↔ LeadsBack next entry vertex := by
  obtain ⟨hEntry, hSince⟩ := h.since hStay
  obtain ⟨steps, hStep, -, -⟩ := h
  have hInv : Invariant next vertices entry := run_succ hStep ▸ invariant_run hStay (steps + 1)
  -- the rest of the whole search starts at the entry
  obtain ⟨rest, hRest⟩ := exists_run_eq_complete hStay (steps + 1)
  rw [run_succ hStep] at hRest
  have hEnd := run_induction (P := fun search => Invariant next vertices search ∧
      Since next entry vertex search)
    (fun _ _ h move => ⟨h.1.move hStay move, h.2.move hEntry h.1 move⟩) rest ⟨hInv, hSince⟩
  rw [hRest] at hEnd
  refine ⟨hEnd.2.closed_back, hEnd.2.left_closed ?_⟩
  simp [mem_trail_iff, (complete_finished hStay).1]

omit [DecidableEq α] in
/-- The first vertex of its component that is visited can go back to itself around any loop. -/
theorem leadsBack_of_first {vertex : α} {entry : Search α}
    (hTrail : vertex ∈ entry.trail)
    (hFirst : ∀ other ∈ entry.visited, Connected next vertex other → other = vertex)
    (hCyclic : TransGen (Edge next) vertex vertex) : LeadsBack next entry vertex := by
  -- the way there may come by the vertex itself, and starts anew then
  have hWay : ∀ other, ReflTransGen (Edge next) vertex other →
      ReflTransGen (Edge next) other vertex →
      ReflTransGen (fun a b => Edge next a b ∧ b ∉ entry.visited) vertex other := by
    intro other hTo
    induction hTo with
    | refl => exact fun _ => .refl
    | @tail before other hTo hEdge ih =>
      intro hFrom
      by_cases hSame : other = vertex
      · exact hSame ▸ .refl
      · have hNew : other ∉ entry.visited := fun hVisited =>
          hSame (hFirst other hVisited ⟨hTo.tail hEdge, hFrom⟩)
        exact (ih (.head hEdge hFrom)).tail ⟨hEdge, hNew⟩
  obtain ⟨last, hTo, hEdge⟩ := TransGen.tail'_iff.mp hCyclic
  exact ⟨last, vertex, hWay last hTo (.single hEdge), hEdge, hTrail⟩

end DebtGauge.Search
