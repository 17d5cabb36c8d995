import DebtGauge.Proofs.Search.Loop
import DebtGauge.Proofs.Search.Move

/-!
# The invariant of a search

A search keeps five things in step: the trail, the set of the vertices on it, the set of
the vertices that were entered, the loops closed so far, and the roots still to be taken.
`Invariant` says how they belong together; it holds at the start and every move keeps it.

Main results:

* `Invariant.move` — every move keeps the invariant.
* `invariant_run` — every search that is under way satisfies it.
-/

namespace DebtGauge.Search

variable {α : Type} {next : α → List α} {vertices : List α}

/-- How the parts of a search over `vertices` belong together. -/
structure Invariant (next : α → List α) (vertices : List α) (search : Search α) : Prop where
  roots_known : ∀ root ∈ search.roots, root ∈ vertices
  visited_known : ∀ vertex ∈ search.visited, vertex ∈ vertices
  /-- No vertex is forgotten. -/
  root_or_visited : ∀ vertex ∈ vertices, vertex ∈ search.roots ∨ vertex ∈ search.visited
  trail_nodup : search.trail.Nodup
  trail_visited : ∀ vertex ∈ search.trail, vertex ∈ search.visited
  active_iff : ∀ vertex, vertex ∈ search.active ↔ vertex ∈ search.trail
  trail_path : IsPath next search.trail
  /-- The edges that are still to be looked at are the last ones. -/
  pending_suffix : ∀ frame ∈ search.frames, frame.pending <:+ next frame.vertex
  closed_loops : ∀ loop ∈ search.closed, IsLoop next loop
  closed_known : ∀ loop ∈ search.closed, ∀ vertex ∈ loop, vertex ∈ vertices

/-! ## The trail of a search -/

theorem mem_trail_iff {search : Search α} {vertex : α} :
    vertex ∈ search.trail ↔ vertex ∈ search.frames.map (·.vertex) :=
  List.mem_reverse

theorem trail_of_frames {search : Search α} {vertex : α} {pending : List α}
    {frames : List (Frame α)} (hFrames : search.frames = ⟨vertex, pending⟩ :: frames) :
    search.trail = (frames.map (·.vertex)).reverse ++ [vertex] := by
  simp [trail, hFrames]

/-- Looking at an edge does not change the trail. -/
theorem trail_lookedAt {search : Search α} {vertex : α} {pending rest : List α}
    {frames : List (Frame α)} (hFrames : search.frames = ⟨vertex, pending⟩ :: frames) :
    { search with frames := ⟨vertex, rest⟩ :: frames }.trail = search.trail := by
  rw [trail_of_frames hFrames, trail_of_frames rfl]

theorem trail_start (roots : List α) : (start roots).trail = [] := rfl

/-! ## Entering, looking on, leaving -/

theorem invariant_start (next : α → List α) (vertices : List α) :
    Invariant next vertices (start vertices) where
  roots_known := fun _ hRoot => hRoot
  visited_known := by simp [start]
  root_or_visited := fun _ hVertex => Or.inl hVertex
  trail_nodup := by simp [trail_start]
  trail_visited := by simp [trail_start]
  active_iff := fun _ => Iff.rfl
  trail_path := by simp [trail_start]
  pending_suffix := by simp [start]
  closed_loops := by simp [start]
  closed_known := by simp [start]

/-- Entering a vertex that was not visited, at the end of an edge from the last one on the
trail or as a new start, keeps the invariant. -/
theorem Invariant.enter {search : Search α} (h : Invariant next vertices search) {vertex : α}
    (hKnown : vertex ∈ vertices) (hNew : vertex ∉ search.visited)
    (hEdge : ∀ last ∈ search.trail.getLast?, Edge next last vertex) :
    Invariant next vertices (search.enter vertex (next vertex)) where
  roots_known := h.roots_known
  visited_known := by
    intro v hv
    rcases List.mem_cons.mp hv with rfl | hv
    · exact hKnown
    · exact h.visited_known v hv
  root_or_visited := fun v hv => (h.root_or_visited v hv).imp_right (List.mem_cons_of_mem _)
  trail_nodup := by
    -- what is on the trail was visited, so a new vertex is not repeated
    have hFresh : vertex ∉ search.trail := fun hv => hNew (h.trail_visited vertex hv)
    rw [trail_enter, List.nodup_append]
    refine ⟨h.trail_nodup, by simp, ?_⟩
    rintro a ha b hb rfl
    obtain rfl : a = vertex := by simpa using hb
    exact hFresh ha
  trail_visited := by
    intro v hv
    rw [trail_enter, List.mem_append, List.mem_singleton] at hv
    rcases hv with hv | rfl
    · exact List.mem_cons_of_mem _ (h.trail_visited v hv)
    · exact List.mem_cons_self ..
  active_iff := by
    intro v
    rw [trail_enter, List.mem_append, List.mem_singleton, ← h.active_iff, or_comm]
    exact List.mem_cons
  trail_path := by
    rw [trail_enter]
    refine h.trail_path.append (List.isChain_singleton _) ?_
    intro last hLast first hFirst
    obtain rfl : vertex = first := by simpa using hFirst
    exact hEdge last hLast
  pending_suffix := by
    intro frame hFrame
    rcases List.mem_cons.mp hFrame with rfl | hFrame
    · exact List.suffix_refl _
    · exact h.pending_suffix frame hFrame
  closed_loops := h.closed_loops
  closed_known := h.closed_known

/-- Looking at an edge keeps the invariant. -/
theorem Invariant.lookAt {search : Search α} (h : Invariant next vertices search)
    {vertex target : α} {pending : List α} {frames : List (Frame α)}
    (hFrames : search.frames = ⟨vertex, target :: pending⟩ :: frames) :
    Invariant next vertices { search with frames := ⟨vertex, pending⟩ :: frames } where
  roots_known := h.roots_known
  visited_known := h.visited_known
  root_or_visited := h.root_or_visited
  trail_nodup := (trail_lookedAt hFrames).symm ▸ h.trail_nodup
  trail_visited := (trail_lookedAt hFrames).symm ▸ h.trail_visited
  active_iff := (trail_lookedAt hFrames).symm ▸ h.active_iff
  trail_path := (trail_lookedAt hFrames).symm ▸ h.trail_path
  pending_suffix := by
    intro frame hFrame
    rcases List.mem_cons.mp hFrame with rfl | hFrame
    · have hTop := h.pending_suffix ⟨vertex, target :: pending⟩ (by simp [hFrames])
      exact (List.suffix_cons ..).trans hTop
    · exact h.pending_suffix frame (by simp [hFrames, hFrame])
  closed_loops := h.closed_loops
  closed_known := h.closed_known

theorem Invariant.trail_known {search : Search α} (h : Invariant next vertices search) :
    ∀ vertex ∈ search.trail, vertex ∈ vertices :=
  fun vertex hVertex => h.visited_known vertex (h.trail_visited vertex hVertex)

/-- The target of the edge that is looked at next is a target of the last vertex. -/
theorem Invariant.edge_of_pending {search : Search α} (h : Invariant next vertices search)
    {vertex target : α} {pending : List α} {frames : List (Frame α)}
    (hFrames : search.frames = ⟨vertex, target :: pending⟩ :: frames) :
    Edge next vertex target := by
  have hTop := h.pending_suffix ⟨vertex, target :: pending⟩ (by simp [hFrames])
  exact hTop.subset (List.mem_cons_self ..)

/-- The target of the edge that is looked at next is a known vertex. -/
theorem Invariant.target_known {search : Search α} (h : Invariant next vertices search)
    (hStay : EdgesStay next vertices) {vertex target : α} {pending : List α}
    {frames : List (Frame α)} (hFrames : search.frames = ⟨vertex, target :: pending⟩ :: frames) :
    target ∈ vertices := by
  have hTrail : vertex ∈ search.trail := by simp [trail_of_frames hFrames]
  exact hStay vertex (h.trail_known vertex hTrail) target (h.edge_of_pending hFrames)

/-- Taking a root off the list keeps the invariant if the root was visited. -/
theorem Invariant.passRoot {search : Search α} (h : Invariant next vertices search) {root : α}
    {roots : List α} (hRoots : search.roots = root :: roots) (hSeen : root ∈ search.visited) :
    Invariant next vertices { search with roots } := by
  refine { h with roots_known := ?_, root_or_visited := ?_ }
  · exact fun r hr => h.roots_known r (hRoots ▸ List.mem_cons_of_mem _ hr)
  · intro v hv
    rcases h.root_or_visited v hv with hRoot | hVisited
    · rw [hRoots] at hRoot
      rcases List.mem_cons.mp hRoot with rfl | hRoot
      · exact Or.inr hSeen
      · exact Or.inl hRoot
    · exact Or.inr hVisited

variable [DecidableEq α]

/-- Leaving the last vertex of the trail keeps the invariant. -/
theorem Invariant.leave {search : Search α} (h : Invariant next vertices search) {vertex : α}
    {pending : List α} {frames : List (Frame α)}
    (hFrames : search.frames = ⟨vertex, pending⟩ :: frames) :
    Invariant next vertices (search.leave vertex frames) := by
  have hTrail : search.trail = (search.leave vertex frames).trail ++ [vertex] :=
    trail_of_frames hFrames
  have hNodup := h.trail_nodup
  rw [hTrail, List.nodup_append] at hNodup
  -- the trail has no repetition, so that what is dropped from the set is off the trail
  have hOff : vertex ∉ (search.leave vertex frames).trail := fun hv =>
    hNodup.2.2 vertex hv vertex (by simp) rfl
  refine ⟨h.roots_known, h.visited_known, h.root_or_visited, hNodup.1, ?_, ?_, ?_, ?_,
    h.closed_loops, h.closed_known⟩
  · exact fun v hv => h.trail_visited v (hTrail ▸ List.mem_append_left _ hv)
  · intro v
    have hActive : v ∈ (search.leave vertex frames).active ↔ v ∈ search.active ∧ v ≠ vertex := by
      simp [Search.leave]
    rw [hActive, h.active_iff, hTrail, List.mem_append, List.mem_singleton]
    constructor
    · rintro ⟨hv | hv, hne⟩
      · exact hv
      · exact absurd hv hne
    · intro hv
      exact ⟨Or.inl hv, fun hEq => hOff (hEq ▸ hv)⟩
  · exact (hTrail ▸ h.trail_path).left_of_append
  · exact fun frame hFrame => h.pending_suffix frame (hFrames ▸ List.mem_cons_of_mem _ hFrame)

/-! ## Loops that are cut off the trail -/

/-- The part of a list from an item on starts with this item. -/
theorem head?_dropWhile_ne {path : List α} {a : α} (ha : a ∈ path) :
    (path.dropWhile (· ≠ a)).head? = some a := by
  induction path with
  | nil => simp at ha
  | cons b path ih =>
    by_cases hb : b = a
    · simp [hb]
    · have ha : a ∈ path := by simpa [Ne.symm hb] using ha
      simpa [List.dropWhile_cons, hb] using ih ha

theorem dropWhile_ne_ne_nil {path : List α} {a : α} (ha : a ∈ path) :
    path.dropWhile (· ≠ a) ≠ [] := by
  intro hNil
  have hHead := head?_dropWhile_ne ha
  rw [hNil] at hHead
  simp at hHead

/-- The part of a path from an item on ends as the path does. -/
theorem getLast?_dropWhile_ne {path : List α} {a : α} (ha : a ∈ path) :
    (path.dropWhile (· ≠ a)).getLast? = path.getLast? := by
  have hSplit : path.takeWhile (· ≠ a) ++ path.dropWhile (· ≠ a) = path :=
    List.takeWhile_append_dropWhile
  conv_rhs => rw [← hSplit]
  rw [List.getLast?_append_of_ne_nil _ (dropWhile_ne_ne_nil ha)]

/-- An edge from the end of the trail to a vertex on it closes a loop. -/
theorem Invariant.isLoop_cutOff {search : Search α} (h : Invariant next vertices search)
    {vertex target : α} (hTarget : target ∈ search.trail)
    (hLast : search.trail.getLast? = some vertex) (hEdge : Edge next vertex target) :
    IsLoop next (search.trail.dropWhile (· ≠ target)) := by
  -- what is cut off is a suffix of the trail, and inherits from it
  have hSplit : search.trail.takeWhile (· ≠ target) ++ search.trail.dropWhile (· ≠ target) =
      search.trail := List.takeWhile_append_dropWhile
  have hNodup := h.trail_nodup
  have hPath := h.trail_path
  rw [← hSplit] at hNodup hPath
  exact isLoop_of_suffix hNodup hPath (head?_dropWhile_ne hTarget)
    ((getLast?_dropWhile_ne hTarget).trans hLast) hEdge

/-- The loop that an edge to `target` closes is the part of the trail from `target` on. -/
theorem close_of_mem {search : Search α} {target : α} (h : target ∈ search.trail) :
    search.close target =
      { search with closed := search.trail.dropWhile (· ≠ target) :: search.closed } := by
  rw [close, if_pos h]

/-- Closing a loop keeps the invariant. -/
theorem Invariant.close {search : Search α} (h : Invariant next vertices search)
    {vertex target : α} (hTarget : target ∈ search.trail)
    (hLast : search.trail.getLast? = some vertex) (hEdge : Edge next vertex target) :
    Invariant next vertices (search.close target) := by
  rw [close_of_mem hTarget]
  refine { h with closed_loops := ?_, closed_known := ?_ }
  · intro loop hLoop
    rcases List.mem_cons.mp hLoop with rfl | hLoop
    · exact h.isLoop_cutOff hTarget hLast hEdge
    · exact h.closed_loops loop hLoop
  · intro loop hLoop v hv
    rcases List.mem_cons.mp hLoop with rfl | hLoop
    · exact h.trail_known v ((List.dropWhile_sublist _).subset hv)
    · exact h.closed_known loop hLoop v hv

/-! ## Every move keeps the invariant -/

/-- Every move keeps the invariant. -/
theorem Invariant.move {search after : Search α} (h : Invariant next vertices search)
    (hStay : EdgesStay next vertices) (move : Move next search after) :
    Invariant next vertices after := by
  cases move with
  | passRoot hFrames hRoots hSeen => exact h.passRoot hRoots hSeen
  | @enterRoot root roots hFrames hRoots hNew =>
    have hTrail : search.trail = [] := by simp [trail, hFrames]
    have hKnown : root ∈ vertices := h.roots_known root (by simp [hRoots])
    have hEntered := h.enter hKnown hNew (by simp [hTrail])
    exact hEntered.passRoot hRoots (List.mem_cons_self ..)
  | leave hFrames => exact h.leave hFrames
  | descend hFrames hNew =>
    refine (h.lookAt hFrames).enter (h.target_known hStay hFrames) hNew ?_
    intro last hLast
    rw [trail_of_frames rfl, List.getLast?_concat, Option.mem_some_iff] at hLast
    exact hLast ▸ h.edge_of_pending hFrames
  | closeLoop hFrames hSeen hActive =>
    have hTrail := (h.active_iff _).mp hActive
    refine (h.lookAt hFrames).close ((trail_lookedAt hFrames).symm ▸ hTrail) ?_
      (h.edge_of_pending hFrames)
    rw [trail_of_frames rfl, List.getLast?_concat]
  | passEdge hFrames hSeen hLeft => exact h.lookAt hFrames

/-- Every search that is under way satisfies the invariant. -/
theorem invariant_run (hStay : EdgesStay next vertices) (steps : Nat) :
    Invariant next vertices (run next steps (start vertices)) :=
  run_induction (fun _ _ h move => h.move hStay move) steps (invariant_start next vertices)

end DebtGauge.Search
