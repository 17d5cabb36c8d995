import DebtGauge.Proofs.Search.Termination

/-!
# No component is skipped

A search enters every vertex once, so an edge into a part that was left before is not
followed, and most loops of a graph are never closed. Still every component that has a
loop at all gets one closed. `Coverage` is the reason. Say that a vertex on a loop is left:
it has an edge to a vertex of its own component. If that one is still on the trail, the
edge has closed a loop when it was looked at; if it was left before, a loop of the component
was closed by then.

Main results:

* `Coverage.move` — every move keeps the coverage.
* `exists_closed_loop` — for each vertex on a loop a whole search closes a loop in its
  component.
-/

namespace DebtGauge.Search

open Relation

variable {α : Type} {next : α → List α} {vertices : List α}

/-- An edge of a vertex on the trail, above `lower`, is settled once its target was visited;
if the target is this vertex or one before it, the edge has also closed a loop. -/
def Settled (search : Search α) (frame : Frame α) (lower : List (Frame α)) (target : α) : Prop :=
  target ∈ search.visited ∧ (target ∈ (frame :: lower).map (·.vertex) →
    ∃ loop ∈ search.closed, frame.vertex ∈ loop ∧ target ∈ loop)

/-- What a search has made of the edges behind it. -/
structure Coverage (next : α → List α) (search : Search α) : Prop where
  /-- Every edge of a vertex on the trail is either still to be looked at or settled. -/
  settled : ∀ frame lower, frame :: lower <:+ search.frames → ∀ target ∈ next frame.vertex,
    target ∈ frame.pending ∨ Settled search frame lower target
  /-- A vertex that was left has a closed loop in its component, if it is on a loop. -/
  left_covered : ∀ vertex ∈ search.visited, vertex ∉ search.trail →
    TransGen (Edge next) vertex vertex →
    ∃ loop ∈ search.closed, ∀ other ∈ loop, Connected next vertex other

theorem coverage_start (next : α → List α) (vertices : List α) :
    Coverage next (start vertices) where
  settled := by simp [start]
  left_covered := by simp [start]

/-- What is settled stays so while more vertices are visited and more loops are closed. -/
theorem Settled.mono {search after : Search α} {frame : Frame α} {lower : List (Frame α)}
    {target : α} (h : Settled search frame lower target)
    (hVisited : search.visited ⊆ after.visited) (hClosed : search.closed ⊆ after.closed) :
    Settled after frame lower target := by
  refine ⟨hVisited h.1, fun hLower => ?_⟩
  obtain ⟨loop, hLoop, hVertex, hTarget⟩ := h.2 hLower
  exact ⟨loop, hClosed hLoop, hVertex, hTarget⟩

/-- After an edge was looked at, all edges of the trail are pending or settled if this one
is settled now. -/
theorem Coverage.settled_lookAt {search after : Search α} (h : Coverage next search) {vertex : α}
    {target : α} {pending : List α} {frames : List (Frame α)}
    (hFrames : search.frames = ⟨vertex, target :: pending⟩ :: frames)
    (hTarget : Settled after ⟨vertex, pending⟩ frames target)
    (hVisited : search.visited ⊆ after.visited) (hClosed : search.closed ⊆ after.closed)
    {frame : Frame α}
    {lower : List (Frame α)} (hSuffix : frame :: lower <:+ ⟨vertex, pending⟩ :: frames)
    {other : α} (hOther : other ∈ next frame.vertex) :
    other ∈ frame.pending ∨ Settled after frame lower other := by
  rcases List.suffix_cons_iff.mp hSuffix with hTop | hLower
  · obtain ⟨rfl, rfl⟩ := List.cons.inj hTop
    have hBefore := h.settled ⟨vertex, target :: pending⟩ lower (hFrames ▸ List.suffix_refl _)
      other hOther
    rcases hBefore with hPending | hSettled
    · rcases List.mem_cons.mp hPending with rfl | hPending
      · exact Or.inr hTarget
      · exact Or.inl hPending
    · exact Or.inr (Settled.mono hSettled hVisited hClosed)
  · have hSuffix' : frame :: lower <:+ search.frames :=
      hFrames ▸ hLower.trans (List.suffix_cons ..)
    exact (h.settled frame lower hSuffix' other hOther).imp_right (·.mono hVisited hClosed)

/-- Entering a vertex keeps the coverage if the edges below it are settled. -/
theorem Coverage.enter {search : Search α} {vertex : α}
    (hSettled : ∀ frame lower, frame :: lower <:+ search.frames → ∀ target ∈ next frame.vertex,
      target ∈ frame.pending ∨ Settled (search.enter vertex (next vertex)) frame lower target)
    (hLeft : ∀ vertex ∈ search.visited, vertex ∉ search.trail →
      TransGen (Edge next) vertex vertex →
      ∃ loop ∈ search.closed, ∀ other ∈ loop, Connected next vertex other) :
    Coverage next (search.enter vertex (next vertex)) where
  settled := by
    intro frame lower hSuffix target hTarget
    rcases List.suffix_cons_iff.mp hSuffix with hTop | hLower
    · -- nothing was looked at yet from the vertex that is entered
      obtain ⟨rfl, rfl⟩ := List.cons.inj hTop
      exact Or.inl hTarget
    · exact hSettled frame lower hLower target hTarget
  left_covered := by
    intro v hVisited hOff hCyclic
    rw [trail_enter, List.mem_append, List.mem_singleton, not_or] at hOff
    exact hLeft v ((List.mem_cons.mp hVisited).resolve_left hOff.2) hOff.1 hCyclic

/-- Following an edge to a vertex that was not visited keeps the coverage: a vertex that was
not visited is not on the trail, so the edge closes no loop. -/
theorem Coverage.descend {search : Search α} (h : Coverage next search) {vertex target : α}
    {pending : List α} {frames : List (Frame α)}
    (hFrames : search.frames = ⟨vertex, target :: pending⟩ :: frames)
    (hNew : target ∉ search.visited) (hTrail : ∀ v ∈ search.trail, v ∈ search.visited) :
    Coverage next
      ({ search with frames := ⟨vertex, pending⟩ :: frames }.enter target (next target)) := by
  have hSettled : Settled
      ({ search with frames := ⟨vertex, pending⟩ :: frames }.enter target (next target))
      ⟨vertex, pending⟩ frames target := by
    refine ⟨List.mem_cons_self .., fun hOn => absurd (hTrail target ?_) hNew⟩
    rw [mem_trail_iff, hFrames]
    exact hOn
  refine Coverage.enter ?_ ?_
  · intro frame lower hSuffix other hOther
    exact h.settled_lookAt hFrames hSettled (List.subset_cons_self ..) (List.Subset.refl _)
      hSuffix hOther
  · rw [trail_lookedAt hFrames]
    exact h.left_covered

/-- Passing an edge keeps the coverage if the target is off the trail. -/
theorem Coverage.passEdge {search : Search α} (h : Coverage next search) {vertex target : α}
    {pending : List α} {frames : List (Frame α)}
    (hFrames : search.frames = ⟨vertex, target :: pending⟩ :: frames)
    (hSeen : target ∈ search.visited) (hOff : target ∉ search.trail) :
    Coverage next { search with frames := ⟨vertex, pending⟩ :: frames } := by
  have hSettled : Settled { search with frames := ⟨vertex, pending⟩ :: frames }
      ⟨vertex, pending⟩ frames target := by
    refine ⟨hSeen, fun hOn => absurd ?_ hOff⟩
    rw [mem_trail_iff, hFrames]
    exact hOn
  constructor
  · intro frame lower hSuffix other hOther
    exact h.settled_lookAt hFrames hSettled (List.Subset.refl _) (List.Subset.refl _) hSuffix hOther
  · rw [trail_lookedAt hFrames]
    exact h.left_covered

/-- A vertex on a loop whose edges are all settled has a closed loop in its component. The
first edge of a way back to it stays in the component: either it led back to the trail, or
to a vertex that was left before. -/
theorem Coverage.covered_of_settled {search : Search α} (h : Coverage next search)
    (hLoops : ∀ loop ∈ search.closed, IsLoop next loop) {vertex : α} {frames : List (Frame α)}
    (hFrames : search.frames = ⟨vertex, []⟩ :: frames)
    (hCyclic : TransGen (Edge next) vertex vertex) :
    ∃ loop ∈ search.closed, ∀ other ∈ loop, Connected next vertex other := by
  obtain ⟨target, hEdge, hBack⟩ := TransGen.head'_iff.mp hCyclic
  have hSame : Connected next vertex target := ⟨.single hEdge, hBack⟩
  obtain hPending | ⟨hVisited, hTrail⟩ :=
    h.settled ⟨vertex, []⟩ frames (hFrames ▸ List.suffix_refl _) target hEdge
  · simp at hPending
  by_cases hOn : target ∈ search.trail
  · -- the edge back to the trail has closed a loop through both
    rw [mem_trail_iff, hFrames] at hOn
    obtain ⟨loop, hLoop, hVertex, -⟩ := hTrail hOn
    exact ⟨loop, hLoop, fun other hOther => (hLoops loop hLoop).connected hVertex hOther⟩
  · -- the target was left before, and it is on a loop as well: around and back to it
    have hCyclic' : TransGen (Edge next) target target := TransGen.tail' hBack hEdge
    obtain ⟨loop, hLoop, hInside⟩ := h.left_covered target hVisited hOn hCyclic'
    exact ⟨loop, hLoop, fun other hOther => hSame.trans (hInside other hOther)⟩

variable [DecidableEq α]

/-- Leaving a vertex keeps the coverage: all its edges are settled by then. -/
theorem Coverage.leave {search : Search α} (h : Coverage next search)
    (hLoops : ∀ loop ∈ search.closed, IsLoop next loop) {vertex : α} {frames : List (Frame α)}
    (hFrames : search.frames = ⟨vertex, []⟩ :: frames) :
    Coverage next (search.leave vertex frames) where
  settled := fun frame lower hSuffix =>
    h.settled frame lower (hFrames ▸ hSuffix.trans (List.suffix_cons ..))
  left_covered := by
    intro v hVisited hOff hCyclic
    -- only the vertex that is left is new off the trail
    by_cases hv : v = vertex
    · subst hv
      exact h.covered_of_settled hLoops hFrames hCyclic
    · refine h.left_covered v hVisited ?_ hCyclic
      rw [trail_of_frames hFrames, List.mem_append, List.mem_singleton]
      exact not_or.mpr ⟨hOff, hv⟩

/-- Closing a loop keeps the coverage: the edge that closes it is settled. -/
theorem Coverage.close {search : Search α} (h : Coverage next search) {vertex target : α}
    {pending : List α} {frames : List (Frame α)}
    (hFrames : search.frames = ⟨vertex, target :: pending⟩ :: frames)
    (hSeen : target ∈ search.visited) (hTarget : target ∈ search.trail) :
    Coverage next ({ search with frames := ⟨vertex, pending⟩ :: frames }.close target) := by
  rw [close_of_mem ((trail_lookedAt hFrames).symm ▸ hTarget), trail_lookedAt hFrames]
  have hVertex : vertex ∈ search.trail.dropWhile (· ≠ target) := by
    refine List.mem_of_getLast? ((getLast?_dropWhile_ne hTarget).trans ?_)
    rw [trail_of_frames hFrames, List.getLast?_concat]
  have hSettled : Settled
      { search with
        frames := ⟨vertex, pending⟩ :: frames
        closed := search.trail.dropWhile (· ≠ target) :: search.closed }
      ⟨vertex, pending⟩ frames target :=
    ⟨hSeen, fun _ => ⟨_, List.mem_cons_self .., hVertex,
      List.mem_of_head? (head?_dropWhile_ne hTarget)⟩⟩
  constructor
  · intro frame lower hSuffix other hOther
    exact h.settled_lookAt hFrames hSettled (List.Subset.refl _) (List.subset_cons_self ..) hSuffix
      hOther
  · intro v hVisited hOff hCyclic
    have hOff' : v ∉ search.trail := (trail_lookedAt hFrames).symm ▸ hOff
    obtain ⟨loop, hLoop, hInside⟩ := h.left_covered v hVisited hOff' hCyclic
    exact ⟨loop, List.mem_cons_of_mem _ hLoop, hInside⟩

/-- Every move keeps the coverage. -/
theorem Coverage.move {search after : Search α} (h : Coverage next search)
    (hInv : Invariant next vertices search) (move : Move next search after) :
    Coverage next after := by
  cases move with
  | passRoot hFrames hRoots hSeen => exact ⟨h.settled, h.left_covered⟩
  | enterRoot hFrames hRoots hNew =>
    refine Coverage.enter ?_ h.left_covered
    intro frame lower hSuffix
    simp [hFrames] at hSuffix
  | leave hFrames => exact h.leave hInv.closed_loops hFrames
  | descend hFrames hNew => exact h.descend hFrames hNew hInv.trail_visited
  | closeLoop hFrames hSeen hActive => exact h.close hFrames hSeen ((hInv.active_iff _).mp hActive)
  | passEdge hFrames hSeen hLeft =>
    exact h.passEdge hFrames hSeen (mt (hInv.active_iff _).mpr hLeft)

/-- Every search that is under way covers what is behind it. -/
theorem coverage_run (hStay : EdgesStay next vertices) (steps : Nat) :
    Coverage next (run next steps (start vertices)) := by
  have hBoth := run_induction (P := fun search => Invariant next vertices search ∧
    Coverage next search) (fun _ _ h move => ⟨h.1.move hStay move, h.2.move h.1 move⟩) steps
    ⟨invariant_start next vertices, coverage_start next vertices⟩
  exact hBoth.2

/-- For each vertex on a loop a whole search closes a loop in its component. -/
theorem exists_closed_loop (hStay : EdgesStay next vertices) {vertex : α}
    (hKnown : vertex ∈ vertices) (hCyclic : TransGen (Edge next) vertex vertex) :
    ∃ loop ∈ (complete next vertices).closed, ∀ other ∈ loop, Connected next vertex other := by
  have hInv : Invariant next vertices (complete next vertices) := invariant_run hStay _
  have hCover : Coverage next (complete next vertices) := coverage_run hStay _
  obtain ⟨hFrames, hRoots⟩ := complete_finished hStay
  have hVisited : vertex ∈ (complete next vertices).visited := by
    rcases hInv.root_or_visited vertex hKnown with hRoot | hVisited
    · simp [hRoots] at hRoot
    · exact hVisited
  have hOff : vertex ∉ (complete next vertices).trail := by simp [mem_trail_iff, hFrames]
  exact hCover.left_covered vertex hVisited hOff hCyclic

end DebtGauge.Search
