import DebtGauge.Proofs.Search.Stack

/-!
# The search as a recursion

The single steps of a search are those of a recursion. A visit enters a vertex, looks at its edges
in their order, visits the targets that were not visited, and leaves the vertex. The visits that
are under way at once are those to the vertices on the trail, and a trail has no repetition. So
the recursion never gets deeper than there are vertices, and it comes to the same end.

Main definitions:

* `VisitState` — what the visits of a recursion pass on to each other;
* `visit?`, `visitAll?` — the recursion, with a bound on its depth.

Main results:

* `visit?_restores` — a visit gives back the path that it has found.
* `looksOn` — the steps of a search that looks at the edges of a vertex are those of the recursion.
* `visitAll?_eq` — a recursion as deep as there are vertices ends as the whole search does.
-/

namespace DebtGauge.Search

variable {α : Type}

/-- What the visits of a recursion pass on to each other. Lists that grow hold their latest item
first, but for the path. -/
structure VisitState (α : Type) where
  /-- The vertices whose visits are under way, from the first one on. -/
  path : List α
  /-- The set of the vertices on the path. -/
  active : List α
  visited : List α
  closed : List (List α)

namespace VisitState

/-- Enters a vertex. -/
def enter (state : VisitState α) (vertex : α) : VisitState α :=
  { state with
    path := state.path ++ [vertex]
    active := vertex :: state.active
    visited := vertex :: state.visited }

variable [DecidableEq α]

/-- Leaves a vertex. -/
def leave (state : VisitState α) (vertex : α) : VisitState α :=
  { state with path := state.path.dropLast, active := state.active.filter (· ≠ vertex) }

/-- Closes the loop that starts where the vertex is found on the path. -/
def close? (state : VisitState α) (vertex : α) : Option (VisitState α) :=
  (state.path.idxOf? vertex).map fun index =>
    { state with closed := state.path.drop index :: state.closed }

/-- Looks at an edge to `target`, which `visit` visits if it was not visited. -/
def look? (visit : VisitState α → α → Option (VisitState α)) (state : VisitState α) (target : α) :
    Option (VisitState α) :=
  if target ∉ state.visited then visit state target
  else if target ∈ state.active then state.close? target
  else some state

end VisitState

/-- What the visits would have passed on by now. -/
def visitState (search : Search α) : VisitState α :=
  ⟨search.trail, search.active, search.visited, search.closed⟩

variable [DecidableEq α]

/-- Visits a vertex: enters it, looks at its edges one after the other, and leaves it. Fails if
more than `depth` visits would be under way at once, or if a vertex is not found on the path. -/
def visit? (next : α → List α) : Nat → VisitState α → α → Option (VisitState α)
  | 0, _, _ => none
  | depth + 1, state, vertex =>
    ((next vertex).foldlM (VisitState.look? (visit? next depth)) (state.enter vertex)).map
      (·.leave vertex)

/-- Visits a vertex unless it was visited before. -/
def visitNew? (next : α → List α) (depth : Nat) (state : VisitState α) (vertex : α) :
    Option (VisitState α) :=
  if vertex ∈ state.visited then some state else visit? next depth state vertex

/-- Visits all vertices. -/
def visitAll? (next : α → List α) (depth : Nat) (vertices : List α) : Option (VisitState α) :=
  vertices.foldlM (visitNew? next depth) ⟨[], [], [], []⟩

/-! ## Single moves of the recursion -/

/-- A vertex on a path is found there, and the loop is the path from there on. -/
theorem exists_idxOf?_eq {path : List α} {vertex : α} (h : vertex ∈ path) :
    ∃ index, path.idxOf? vertex = some index ∧ path.dropWhile (· ≠ vertex) = path.drop index := by
  -- the search cuts the trail with `dropWhile`, the recursion at an index
  induction path with
  | nil => exact absurd h List.not_mem_nil
  | cons first path ih =>
    by_cases hFirst : first = vertex
    · exact ⟨0, by simp [List.idxOf?_cons, hFirst], by simp [hFirst]⟩
    · obtain ⟨index, hFound, hDrop⟩ := ih ((List.mem_cons.mp h).resolve_left (Ne.symm hFirst))
      refine ⟨index + 1, by simp [List.idxOf?_cons, hFirst, hFound], ?_⟩
      rw [List.dropWhile_cons_of_pos (by simpa using hFirst), hDrop, List.drop_succ_cons]

omit [DecidableEq α] in
theorem visitState_enter (search : Search α) (vertex : α) (targets : List α) :
    (search.enter vertex targets).visitState = search.visitState.enter vertex := by
  unfold visitState
  rw [trail_enter]
  rfl

omit [DecidableEq α] in
/-- Looking on at the same vertex passes on the same. -/
theorem visitState_lookedAt {search : Search α} {vertex : α} {pending rest : List α}
    {frames : List (Frame α)} (hFrames : search.frames = ⟨vertex, pending⟩ :: frames) :
    { search with frames := ⟨vertex, rest⟩ :: frames }.visitState = search.visitState := by
  unfold visitState
  rw [trail_lookedAt hFrames]

theorem visitState_leave {search : Search α} {vertex : α} {pending : List α}
    {frames : List (Frame α)} (hFrames : search.frames = ⟨vertex, pending⟩ :: frames) :
    (search.leave vertex frames).visitState = search.visitState.leave vertex := by
  unfold visitState VisitState.leave
  rw [trail_of_frames hFrames, List.dropLast_concat]
  rfl

theorem close?_visitState {search : Search α} {vertex : α} (h : vertex ∈ search.trail) :
    search.visitState.close? vertex = some (search.close vertex).visitState := by
  obtain ⟨index, hFound, hDrop⟩ := exists_idxOf?_eq h
  rw [close_of_mem h, hDrop]
  unfold VisitState.close? visitState
  rw [hFound]
  rfl

/-! ## What a visit gives back -/

/-- The path and the set of the vertices on it are given back, and no visited vertex is
forgotten. -/
structure Restores (before after : VisitState α) : Prop where
  path_eq : after.path = before.path
  active_eq : after.active = before.active
  visited_subset : before.visited ⊆ after.visited

omit [DecidableEq α] in
theorem Restores.trans {first second third : VisitState α} (h : Restores first second)
    (hRest : Restores second third) : Restores first third :=
  ⟨hRest.path_eq.trans h.path_eq, hRest.active_eq.trans h.active_eq,
    List.Subset.trans h.visited_subset hRest.visited_subset⟩

/-- Looking at an edge gives the path back if a visit does. -/
theorem restores_of_look? {visit : VisitState α → α → Option (VisitState α)}
    (hVisit : ∀ {state after vertex}, state.active ⊆ state.visited → vertex ∉ state.visited →
      visit state vertex = some after → Restores state after)
    {state after : VisitState α} {target : α} (hActive : state.active ⊆ state.visited)
    (h : state.look? visit target = some after) : Restores state after := by
  unfold VisitState.look? at h
  split at h
  case isTrue hNew => exact hVisit hActive hNew h
  case isFalse =>
    split at h
    · obtain ⟨index, -, rfl⟩ := Option.map_eq_some_iff.mp h
      exact ⟨rfl, rfl, List.Subset.refl _⟩
    · obtain rfl := Option.some.inj h
      exact ⟨rfl, rfl, List.Subset.refl _⟩

theorem restores_of_foldlM {visit : VisitState α → α → Option (VisitState α)}
    (hVisit : ∀ {state after vertex}, state.active ⊆ state.visited → vertex ∉ state.visited →
      visit state vertex = some after → Restores state after)
    {targets : List α} {state after : VisitState α} (hActive : state.active ⊆ state.visited)
    (h : targets.foldlM (VisitState.look? visit) state = some after) : Restores state after := by
  induction targets generalizing state with
  | nil =>
    obtain rfl := Option.some.inj h
    exact ⟨rfl, rfl, List.Subset.refl _⟩
  | cons target targets ih =>
    rw [List.foldlM_cons] at h
    obtain ⟨middle, hLook, hRest⟩ := Option.bind_eq_some_iff.mp h
    have hFirst := restores_of_look? hVisit hActive hLook
    have hMiddle : middle.active ⊆ middle.visited := by
      rw [hFirst.active_eq]
      exact List.Subset.trans hActive hFirst.visited_subset
    exact hFirst.trans (ih hMiddle hRest)

/-- A visit to a vertex that was not visited gives back the path that it has found. -/
theorem visit?_restores {next : α → List α} {depth : Nat} {state after : VisitState α} {vertex : α}
    (hActive : state.active ⊆ state.visited) (hNew : vertex ∉ state.visited)
    (h : visit? next depth state vertex = some after) : Restores state after := by
  induction depth generalizing state after vertex with
  | zero => exact absurd h (by simp [visit?])
  | succ depth ih =>
    obtain ⟨last, hFold, rfl⟩ := Option.map_eq_some_iff.mp h
    have hEntered : (state.enter vertex).active ⊆ (state.enter vertex).visited :=
      List.cons_subset_cons vertex hActive
    have hInside := restores_of_foldlM ih hEntered hFold
    refine ⟨?_, ?_, List.Subset.trans (List.subset_cons_self ..) hInside.visited_subset⟩
    · exact (congrArg List.dropLast hInside.path_eq).trans List.dropLast_concat
    · -- nothing of what was on the path before is the vertex
      have hOff : ∀ other ∈ state.active, decide (other ≠ vertex) = true := fun other hOther =>
        decide_eq_true fun hSame => hNew (hSame ▸ hActive hOther)
      unfold VisitState.leave
      rw [hInside.active_eq, VisitState.enter, List.filter_cons_of_neg (by simp)]
      exact List.filter_eq_self.mpr hOff

/-! ## Moves and visits -/

variable {next : α → List α} {vertices : List α}

/-- Some steps lead from one state of a search to the other. -/
def LeadsTo (next : α → List α) (search after : Search α) : Prop :=
  ∃ count, run next count search = after

theorem LeadsTo.trans {first second third : Search α} (h : LeadsTo next first second)
    (hRest : LeadsTo next second third) : LeadsTo next first third := by
  obtain ⟨count, rfl⟩ := h
  obtain ⟨rest, rfl⟩ := hRest
  exact ⟨count + rest, run_add ..⟩

theorem LeadsTo.of_move {search after : Search α} (move : Move next search after) :
    LeadsTo next search after :=
  ⟨1, run_succ (step?_of_move move)⟩

/-- On the way the invariant is kept, and no step is gained. -/
theorem LeadsTo.keeps {search after : Search α} (h : LeadsTo next search after)
    (hStay : EdgesStay next vertices) (hInv : Invariant next vertices search) :
    Invariant next vertices after ∧
      remaining next vertices after ≤ remaining next vertices search := by
  obtain ⟨count, rfl⟩ := h
  exact run_induction (P := fun later => Invariant next vertices later ∧
      remaining next vertices later ≤ remaining next vertices search)
    (fun _ _ hLater move => ⟨hLater.1.move hStay move,
      (remaining_lt_of_move hLater.1 hStay move).le.trans hLater.2⟩) count ⟨hInv, le_rfl⟩

/-- From where the last vertex of the trail has the given edges pending, the search goes on to
where it has none, and does with these edges what the recursion does. -/
def LooksOn (next : α → List α) (depth : Nat) (search : Search α) (vertex : α) (pending : List α)
    (frames : List (Frame α)) : Prop :=
  ∃ after, LeadsTo next search after ∧ after.frames = ⟨vertex, []⟩ :: frames ∧
    after.roots = search.roots ∧
    pending.foldlM (VisitState.look? (visit? next depth)) search.visitState =
      some after.visitState

section LooksOn

variable {depth : Nat} {search middle : Search α} {vertex target : α} {pending : List α}
  {frames : List (Frame α)}

theorem LooksOn.cons (h : LooksOn next depth middle vertex pending frames)
    (hLeads : LeadsTo next search middle) (hRoots : middle.roots = search.roots)
    (hLook : search.visitState.look? (visit? next depth) target = some middle.visitState) :
    LooksOn next depth search vertex (target :: pending) frames := by
  obtain ⟨after, hRest, hFrames, hSame, hFold⟩ := h
  refine ⟨after, hLeads.trans hRest, hFrames, hSame.trans hRoots, ?_⟩
  rw [List.foldlM_cons, hLook]
  exact hFold

/-- An edge back to the trail closes a loop in the recursion as well. -/
theorem LooksOn.close (hFrames : search.frames = ⟨vertex, target :: pending⟩ :: frames)
    (hSeen : target ∈ search.visited) (hActive : target ∈ search.active)
    (hTrail : target ∈ search.trail)
    (h : LooksOn next depth ({ search with frames := ⟨vertex, pending⟩ :: frames }.close target)
      vertex pending frames) :
    LooksOn next depth search vertex (target :: pending) frames := by
  have hAt : target ∈ { search with frames := ⟨vertex, pending⟩ :: frames }.trail :=
    (trail_lookedAt hFrames).symm ▸ hTrail
  refine h.cons (.of_move (.closeLoop hFrames hSeen hActive)) ?_ ?_
  · rw [close_of_mem hAt]
  · rw [← close?_visitState hAt, visitState_lookedAt hFrames]
    exact (if_neg (not_not.mpr hSeen)).trans (if_pos hActive)

/-- An edge to a vertex that was left is passed by in the recursion as well. -/
theorem LooksOn.pass (hFrames : search.frames = ⟨vertex, target :: pending⟩ :: frames)
    (hSeen : target ∈ search.visited) (hLeft : target ∉ search.active)
    (h : LooksOn next depth { search with frames := ⟨vertex, pending⟩ :: frames } vertex pending
      frames) :
    LooksOn next depth search vertex (target :: pending) frames := by
  refine h.cons (.of_move (.passEdge hFrames hSeen hLeft)) rfl ?_
  rw [visitState_lookedAt hFrames]
  exact (if_neg (not_not.mpr hSeen)).trans (if_neg hLeft)

/-- A search that has entered a vertex and looks at all its edges makes a visit. -/
theorem LooksOn.visit (h : LooksOn next depth (search.enter vertex (next vertex)) vertex
      (next vertex) search.frames) :
    ∃ after, LeadsTo next (search.enter vertex (next vertex)) after ∧
      after.frames = search.frames ∧ after.roots = search.roots ∧
      visit? next (depth + 1) search.visitState vertex = some after.visitState := by
  obtain ⟨last, hLeads, hFrames, hRoots, hFold⟩ := h
  -- one more move leaves the vertex, as the recursion does at the end of the visit
  refine ⟨last.leave vertex search.frames, hLeads.trans (.of_move (.leave hFrames)), rfl,
    hRoots, ?_⟩
  rw [visit?, ← visitState_enter _ _ (next vertex), hFold, Option.map_some,
    visitState_leave hFrames]

/-- The steps of a search that looks at the edges of a vertex are those of the recursion, if the
trail and the depth that is left are together as long as there are vertices. -/
theorem looksOn (hStay : EdgesStay next vertices) (h : Invariant next vertices search)
    (hFrames : search.frames = ⟨vertex, pending⟩ :: frames)
    (hDepth : vertices.length ≤ search.trail.length + depth) :
    LooksOn next depth search vertex pending frames := by
  -- on the steps that are left, as a visit is followed by what comes after it
  induction hBudget : remaining next vertices search using Nat.strong_induction_on
    generalizing search vertex pending frames depth with
  | _ budget ih =>
    subst hBudget
    cases pending with
    | nil => exact ⟨search, ⟨0, rfl⟩, hFrames, rfl, rfl⟩
    | cons target pending =>
      by_cases hSeen : target ∈ search.visited
      · by_cases hActive : target ∈ search.active
        · have hTrail := (h.active_iff target).mp hActive
          have move : Move next search _ := .closeLoop hFrames hSeen hActive
          refine .close hFrames hSeen hActive hTrail ?_
          refine ih _ (remaining_lt_of_move h hStay move) (h.move hStay move) ?_ ?_ rfl
          · rw [close_of_mem ((trail_lookedAt hFrames).symm ▸ hTrail)]
          · rwa [trail_close, trail_lookedAt hFrames]
        · have move : Move next search _ := .passEdge hFrames hSeen hActive
          refine .pass hFrames hSeen hActive ?_
          refine ih _ (remaining_lt_of_move h hStay move) (h.move hStay move) rfl ?_ rfl
          rwa [trail_lookedAt hFrames]
      · have move : Move next search _ := .descend hFrames hSeen
        have hEntered := h.move hStay move
        have hLess := remaining_lt_of_move h hStay move
        have hTrail : ({ search with frames := ⟨vertex, pending⟩ :: frames }.enter target
            (next target)).trail.length = search.trail.length + 1 := by
          rw [trail_enter, trail_lookedAt hFrames, List.length_append, List.length_singleton]
        -- the trail has become longer, so that some depth was left
        have hRoom := hEntered.length_trail_le
        obtain ⟨depth, rfl⟩ : ∃ less, depth = less + 1 := ⟨depth - 1, by omega⟩
        obtain ⟨after, hLeads, hBack, hRoots, hVisit⟩ :=
          (ih _ hLess hEntered rfl (by omega) rfl : LooksOn next depth _ target _ _).visit
        obtain ⟨hAfter, hMore⟩ := hLeads.keeps hStay hEntered
        have hSame : after.trail = search.trail := by
          rw [trail_of_frames hBack, trail_of_frames hFrames]
        refine LooksOn.cons ?_ ((LeadsTo.of_move move).trans hLeads) hRoots ?_
        · exact ih _ (hMore.trans_lt hLess) hAfter hBack (by rwa [hSame]) rfl
        · rw [visitState_lookedAt hFrames] at hVisit
          exact (if_pos hSeen).trans hVisit

end LooksOn

/-! ## The whole recursion -/

/-- From where no trail is left, the steps of a search are visits to the roots. -/
theorem exists_foldlM_visitNew? (hStay : EdgesStay next vertices) {search : Search α}
    (h : Invariant next vertices search) (hFrames : search.frames = []) :
    ∃ after, LeadsTo next search after ∧ after.frames = [] ∧ after.roots = [] ∧
      search.roots.foldlM (visitNew? next vertices.length) search.visitState =
        some after.visitState := by
  -- on the roots that are left; no step of a visit changes them
  induction hRoots : search.roots generalizing search with
  | nil => exact ⟨search, ⟨0, rfl⟩, hFrames, hRoots, rfl⟩
  | cons root roots ih =>
    rw [List.foldlM_cons]
    by_cases hSeen : root ∈ search.visited
    · have move : Move next search _ := .passRoot hFrames hRoots hSeen
      obtain ⟨after, hLeads, hDone⟩ := ih (h.move hStay move) hFrames rfl
      have hPassed : visitNew? next vertices.length search.visitState root =
          some search.visitState := if_pos hSeen
      refine ⟨after, (LeadsTo.of_move move).trans hLeads, hDone.1, hDone.2.1, ?_⟩
      rw [hPassed]
      exact hDone.2.2
    · have move : Move next search _ := .enterRoot hFrames hRoots hSeen
      have hEntered := h.move hStay move
      have hTrail : ({ search with roots }.enter root (next root)).trail = [root] := by
        rw [trail_enter]
        simp [trail, hFrames]
      have hRoom := hEntered.length_trail_le
      rw [hTrail, List.length_singleton] at hRoom
      -- the root itself is a vertex, so that a visit to it may be under way
      obtain ⟨depth, hDepth⟩ : ∃ less, vertices.length = less + 1 :=
        ⟨vertices.length - 1, by omega⟩
      have hLooks : LooksOn next depth ({ search with roots }.enter root (next root)) root
          (next root) search.frames :=
        looksOn hStay hEntered rfl (by rw [hTrail, hDepth, List.length_singleton]; omega)
      obtain ⟨middle, hMiddle, hBack, hSame, hVisit⟩ := hLooks.visit
      obtain ⟨hInv, -⟩ := hMiddle.keeps hStay hEntered
      obtain ⟨after, hLeads, hDone⟩ := ih hInv (hBack.trans hFrames) hSame
      have hVisited : visitNew? next vertices.length search.visitState root =
          some middle.visitState := by
        rw [hDepth]
        exact (if_neg hSeen).trans hVisit
      refine ⟨after, ((LeadsTo.of_move move).trans hMiddle).trans hLeads, hDone.1, hDone.2.1, ?_⟩
      rw [hVisited]
      exact hDone.2.2

/-- A recursion that may get as deep as there are vertices ends as the whole search does. -/
theorem visitAll?_eq (hStay : EdgesStay next vertices) :
    visitAll? next vertices.length vertices = some (complete next vertices).visitState := by
  obtain ⟨after, ⟨count, hRun⟩, hFrames, hRoots, hVisits⟩ :=
    exists_foldlM_visitNew? hStay (invariant_start next vertices) rfl
  -- both have come to the end of the same run
  have hEnd : after.step? next = none := step?_eq_none_iff.mpr ⟨hFrames, hRoots⟩
  have hSame : complete next vertices = after := by
    obtain ⟨rest, hRest⟩ := exists_run_eq_complete hStay count
    rw [hRun, run_of_step?_eq_none hEnd] at hRest
    exact hRest.symm
  rw [hSame]
  exact hVisits

end DebtGauge.Search
