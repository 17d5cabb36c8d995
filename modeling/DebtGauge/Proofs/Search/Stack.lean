import DebtGauge.Proofs.Search.Entry
import Mathlib.Data.List.Perm.Subperm
import Mathlib.Data.Nat.Find

/-!
# The trail as a stack

A search puts a vertex at the end of the trail when it enters it, and takes it off when it leaves
it; no other step changes the trail. So what happens between the two is a visit that goes on above
the trail it has found, and that gives this trail back. A vertex is entered only if it was not
visited before, and is visited from then on; so there is one visit to each vertex.

Main definitions:

* `TrailChange` — what a step does to the trail and to the visited vertices;
* `Tidy` — what the search has noted of the trail and of the edges behind it;
* `EntersAt`, `LeavesAt`, `IsVisit` — a visit, from the step that enters the vertex to the step
  that leaves it.

Main results:

* `Tidy.move` — every move keeps a search tidy.
* `exists_isVisit` — a vertex that is entered is left again, and the trail is as before.
* `existsUnique_entersAt` — a whole search enters every vertex once.
-/

namespace DebtGauge.Search

variable {α : Type} {next : α → List α} {vertices : List α}

/-! ## What a step does to the trail -/

/-- A step leaves the trail as it is, enters a vertex at its end, or leaves the last one. -/
inductive TrailChange (before after : Search α) : Prop where
  | stays (hTrail : after.trail = before.trail) (hVisited : after.visited = before.visited)
  | enters {vertex : α} (hNew : vertex ∉ before.visited)
    (hTrail : after.trail = before.trail ++ [vertex])
    (hVisited : after.visited = vertex :: before.visited)
  | leaves {vertex : α} (hTrail : before.trail = after.trail ++ [vertex])
    (hVisited : after.visited = before.visited)

theorem TrailChange.visited_subset {before after : Search α} (h : TrailChange before after) :
    before.visited ⊆ after.visited := by
  cases h with
  | stays hTrail hVisited | leaves hTrail hVisited => rw [hVisited]; exact List.Subset.refl _
  | enters hNew hTrail hVisited => rw [hVisited]; exact List.subset_cons_self ..

theorem TrailChange.nodup_visited {before after : Search α} (h : TrailChange before after)
    (hNodup : before.visited.Nodup) : after.visited.Nodup := by
  cases h with
  | stays hTrail hVisited | leaves hTrail hVisited => rwa [hVisited]
  | enters hNew hTrail hVisited => rw [hVisited]; exact List.nodup_cons.mpr ⟨hNew, hNodup⟩

/-- Only an entry makes a vertex visited. -/
theorem TrailChange.trail_of_visited {before after : Search α} (h : TrailChange before after)
    {vertex : α} (hBefore : vertex ∉ before.visited) (hAfter : vertex ∈ after.visited) :
    after.trail = before.trail ++ [vertex] := by
  cases h with
  | stays hTrail hVisited | leaves hTrail hVisited => exact absurd (hVisited ▸ hAfter) hBefore
  | enters hNew hTrail hVisited =>
    rw [hVisited] at hAfter
    obtain rfl := (List.mem_cons.mp hAfter).resolve_right hBefore
    exact hTrail

/-- A step that makes the trail longer enters the vertex at its end. -/
theorem TrailChange.visited_of_trail {before after : Search α} (h : TrailChange before after)
    {vertex : α} (hLonger : after.trail = before.trail ++ [vertex]) :
    vertex ∉ before.visited ∧ after.visited = vertex :: before.visited := by
  cases h with
  | stays hTrail hVisited => simp [hTrail] at hLonger
  | leaves hTrail hVisited =>
    have hLength := congrArg List.length hTrail
    simp [hLonger] at hLength
  | enters hNew hTrail hVisited =>
    obtain rfl := List.singleton_inj.mp (List.append_cancel_left (hTrail.symm.trans hLonger))
    exact ⟨hNew, hVisited⟩

/-- While a trail is not given back, it is what the later ones start with. -/
theorem TrailChange.isPrefix_or {before after : Search α} (h : TrailChange before after)
    {trail : List α} {vertex : α} (hPrefix : trail ++ [vertex] <+: before.trail) :
    trail ++ [vertex] <+: after.trail ∨
      before.trail = trail ++ [vertex] ∧ after.trail = trail := by
  cases h with
  | stays hTrail => exact .inl (hTrail ▸ hPrefix)
  | enters _ hTrail => exact .inl (hTrail ▸ hPrefix.trans (List.prefix_append ..))
  | leaves hTrail =>
    -- what is taken off is the vertex itself, or something above it
    rw [hTrail] at hPrefix
    rcases List.prefix_concat_iff.mp hPrefix with hAll | hBelow
    · exact .inr ⟨hTrail.trans hAll.symm, (List.append_inj' hAll rfl).1.symm⟩
    · exact .inl hBelow

/-! ## What a search has noted -/

/-- Every edge of the given vertices leads to a visited one, or is still to be looked at. -/
def EdgesNoted (next : α → List α) (vertices visited : List α) (frames : List (Frame α)) : Prop :=
  ∀ vertex ∈ vertices, ∀ target ∈ next vertex, target ∈ visited ∨
    ∃ frame ∈ frames, frame.vertex = vertex ∧ target ∈ frame.pending

/-- What a search has noted of the trail and of the edges behind it. -/
structure Tidy (next : α → List α) (search : Search α) : Prop where
  active_eq : search.active = search.trail.reverse
  visited_nodup : search.visited.Nodup
  edges : EdgesNoted next search.visited search.visited search.frames

theorem tidy_start (next : α → List α) (vertices : List α) : Tidy next (start vertices) where
  active_eq := rfl
  visited_nodup := List.nodup_nil
  edges := by simp [EdgesNoted, start]

/-- All edges of a vertex that was left lead to visited vertices. -/
theorem Tidy.visited_of_left {search : Search α} (h : Tidy next search) {vertex target : α}
    (hVisited : vertex ∈ search.visited) (hLeft : vertex ∉ search.trail)
    (hTarget : target ∈ next vertex) : target ∈ search.visited := by
  refine (h.edges vertex hVisited target hTarget).resolve_right ?_
  rintro ⟨frame, hFrame, rfl, -⟩
  exact hLeft (mem_trail_iff.mpr (List.mem_map_of_mem hFrame))

/-- An edge that was looked at is off the list once its target is visited. -/
theorem EdgesNoted.lookAt {seen visited : List α} {top target : α} {pending : List α}
    {frames : List (Frame α)} (h : EdgesNoted next seen seen (⟨top, target :: pending⟩ :: frames))
    (hTarget : target ∈ visited) (hMore : seen ⊆ visited) :
    EdgesNoted next seen visited (⟨top, pending⟩ :: frames) := by
  intro vertex hVertex other hOther
  rcases h vertex hVertex other hOther with hSeen | ⟨frame, hFrame, hSame, hPending⟩
  · exact .inl (hMore hSeen)
  · rcases List.mem_cons.mp hFrame with rfl | hBelow
    · rcases List.mem_cons.mp hPending with rfl | hPending
      · exact .inl hTarget
      · exact .inr ⟨⟨top, pending⟩, List.mem_cons_self .., hSame, hPending⟩
    · exact .inr ⟨frame, List.mem_cons_of_mem _ hBelow, hSame, hPending⟩

/-- The edges of a vertex that is entered are all still to be looked at. -/
theorem EdgesNoted.enter {seen visited : List α} {frames : List (Frame α)}
    (h : EdgesNoted next seen visited frames) (entered : α) :
    EdgesNoted next (entered :: seen) visited (⟨entered, next entered⟩ :: frames) := by
  intro vertex hVertex target hTarget
  rcases List.mem_cons.mp hVertex with rfl | hVertex
  · exact .inr ⟨⟨vertex, next vertex⟩, List.mem_cons_self .., rfl, hTarget⟩
  · refine (h vertex hVertex target hTarget).imp_right ?_
    rintro ⟨frame, hFrame, hPending⟩
    exact ⟨frame, List.mem_cons_of_mem _ hFrame, hPending⟩

/-- A vertex without further edges has none on the list. -/
theorem EdgesNoted.leave {seen visited : List α} {left : α} {frames : List (Frame α)}
    (h : EdgesNoted next seen visited (⟨left, []⟩ :: frames)) :
    EdgesNoted next seen visited frames := by
  intro vertex hVertex target hTarget
  refine (h vertex hVertex target hTarget).imp_right ?_
  rintro ⟨frame, hFrame, hSame, hPending⟩
  rcases List.mem_cons.mp hFrame with rfl | hBelow
  · exact absurd hPending List.not_mem_nil
  · exact ⟨frame, hBelow, hSame, hPending⟩

/-- No trail is longer than there are vertices. -/
theorem Invariant.length_trail_le {search : Search α} (h : Invariant next vertices search) :
    search.trail.length ≤ vertices.length :=
  (List.Nodup.subperm h.trail_nodup h.trail_known).length_le

variable [DecidableEq α]

/-! ## Every move -/

theorem trail_close (search : Search α) (target : α) : (search.close target).trail = search.trail := by
  unfold close
  split <;> rfl

theorem Move.trailChange {search after : Search α} (move : Move next search after) :
    TrailChange search after := by
  cases move with
  | passRoot => exact .stays rfl rfl
  | @enterRoot root roots hFrames hRoots hNew => exact .enters hNew (trail_enter ..) rfl
  | leave hFrames => exact .leaves (trail_of_frames hFrames) rfl
  | @descend vertex target pending frames hFrames hNew =>
    exact .enters hNew (by rw [trail_enter, trail_lookedAt hFrames]) rfl
  | closeLoop hFrames =>
    refine .stays (by rw [trail_close, trail_lookedAt hFrames]) ?_
    unfold close
    split <;> rfl
  | passEdge hFrames => exact .stays (trail_lookedAt hFrames) rfl

theorem trailChange_run (steps : Nat) (search : Search α) :
    TrailChange (run next steps search) (run next (steps + 1) search) := by
  cases hStep : (run next steps search).step? next with
  | none =>
    have hSame : run next (steps + 1) search = run next steps search := by
      rw [run_add, run_of_step?_eq_none hStep]
    exact hSame ▸ .stays rfl rfl
  | some after => exact run_succ hStep ▸ (move_of_step? hStep).trailChange

theorem visited_run_subset {early late : Nat} (h : early ≤ late) (search : Search α) :
    (run next early search).visited ⊆ (run next late search).visited := by
  induction h with
  | refl => exact List.Subset.refl _
  | @step late _ ih => exact List.Subset.trans ih (trailChange_run late search).visited_subset

/-- The set of the vertices on the trail follows the trail. -/
theorem Tidy.active_move {search after : Search α} (h : Tidy next search)
    (hInv : Invariant next vertices search) (move : Move next search after) :
    after.active = after.trail.reverse := by
  have hActive := h.active_eq
  cases move with
  | passRoot => exact hActive
  | enterRoot =>
    rw [trail_enter, List.reverse_append]
    exact congrArg _ hActive
  | leave hFrames =>
    -- the vertex that is taken off the trail is not on it a second time
    have hTrail := trail_of_frames hFrames
    have hNodup := hInv.trail_nodup
    rw [hTrail, List.nodup_append] at hNodup
    rw [hTrail, List.reverse_append] at hActive
    unfold Search.leave
    rw [hActive]
    simp only [List.reverse_singleton, List.singleton_append, List.filter_cons]
    simp only [ne_eq, not_true, decide_false, Bool.false_eq_true, if_false]
    refine List.filter_eq_self.mpr fun vertex hVertex => ?_
    exact decide_eq_true (hNodup.2.2 vertex (List.mem_reverse.mp hVertex) _ (by simp))
  | descend hFrames =>
    rw [trail_enter, trail_lookedAt hFrames, List.reverse_append]
    exact congrArg _ hActive
  | closeLoop hFrames =>
    rw [trail_close, trail_lookedAt hFrames, ← hActive]
    unfold close
    split <;> rfl
  | passEdge hFrames => rwa [trail_lookedAt hFrames]

/-- Every move keeps a search tidy. -/
theorem Tidy.move {search after : Search α} (h : Tidy next search)
    (hInv : Invariant next vertices search) (move : Move next search after) :
    Tidy next after := by
  refine ⟨h.active_move hInv move, move.trailChange.nodup_visited h.visited_nodup, ?_⟩
  -- an edge is taken off the list only when its target is visited
  have hEdges := h.edges
  cases move with
  | passRoot => exact hEdges
  | @enterRoot root roots =>
    have hMore : EdgesNoted next search.visited (root :: search.visited) search.frames :=
      fun vertex hVertex target hTarget =>
        (hEdges vertex hVertex target hTarget).imp_left (List.mem_cons_of_mem _)
    exact hMore.enter root
  | leave hFrames => exact (hFrames ▸ hEdges).leave
  | @descend vertex target pending frames hFrames =>
    rw [hFrames] at hEdges
    exact (hEdges.lookAt (List.mem_cons_self ..) (List.subset_cons_self ..)).enter target
  | closeLoop hFrames hSeen =>
    rw [hFrames] at hEdges
    unfold close
    split <;> exact hEdges.lookAt hSeen (List.Subset.refl _)
  | passEdge hFrames hSeen =>
    rw [hFrames] at hEdges
    exact hEdges.lookAt hSeen (List.Subset.refl _)

theorem tidy_run (hStay : EdgesStay next vertices) (steps : Nat) :
    Tidy next (run next steps (start vertices)) := by
  have hBoth := run_induction (P := fun search => Invariant next vertices search ∧
    Tidy next search) (fun _ _ h move => ⟨h.1.move hStay move, h.2.move h.1 move⟩) steps
    ⟨invariant_start next vertices, tidy_start next vertices⟩
  exact hBoth.2

/-! ## Visits -/

/-- The step after so many steps of a whole search puts the vertex at the end of the trail. -/
def EntersAt (next : α → List α) (vertices : List α) (steps : Nat) (vertex : α) : Prop :=
  (run next (steps + 1) (start vertices)).trail =
    (run next steps (start vertices)).trail ++ [vertex]

/-- The step after so many steps of a whole search takes the vertex off the end of the trail. -/
def LeavesAt (next : α → List α) (vertices : List α) (steps : Nat) (vertex : α) : Prop :=
  (run next steps (start vertices)).trail =
    (run next (steps + 1) (start vertices)).trail ++ [vertex]

/-- A visit to the vertex, from the step that enters it to the step that leaves it. In between the
vertex stays where it is on the trail, and afterwards all is as before it was entered. -/
structure IsVisit (next : α → List α) (vertices : List α) (vertex : α) (first last : Nat) :
    Prop where
  enters : EntersAt next vertices first vertex
  leaves : LeavesAt next vertices last vertex
  above : ∀ steps, first < steps → steps ≤ last →
    (run next first (start vertices)).trail ++ [vertex] <+: (run next steps (start vertices)).trail
  trail_eq : (run next (last + 1) (start vertices)).trail = (run next first (start vertices)).trail
  active_eq : (run next (last + 1) (start vertices)).active =
    (run next first (start vertices)).active

theorem EntersAt.visited {steps : Nat} {vertex : α} (h : EntersAt next vertices steps vertex) :
    vertex ∉ (run next steps (start vertices)).visited ∧
      (run next (steps + 1) (start vertices)).visited =
        vertex :: (run next steps (start vertices)).visited :=
  (trailChange_run steps (start vertices)).visited_of_trail h

theorem EntersAt.known (hStay : EdgesStay next vertices) {steps : Nat} {vertex : α}
    (h : EntersAt next vertices steps vertex) : vertex ∈ vertices :=
  (invariant_run hStay (steps + 1)).visited_known vertex (h.visited.2 ▸ List.mem_cons_self ..)

/-- A vertex that is entered is left again, and the trail is as before. -/
theorem exists_isVisit (hStay : EdgesStay next vertices) {first : Nat} {vertex : α}
    (h : EntersAt next vertices first vertex) :
    ∃ last, first < last ∧ IsVisit next vertices vertex first last := by
  -- the trail is used up in the end, so there is a first time that it is not above any more
  have hEnds : ∃ rest, ¬ (run next first (start vertices)).trail ++ [vertex] <+:
      (run next (first + 1 + rest) (start vertices)).trail := by
    obtain ⟨rest, hRest⟩ := exists_run_eq_complete hStay (first + 1)
    refine ⟨rest, fun hPrefix => ?_⟩
    have hNil : (run next (first + 1 + rest) (start vertices)).trail = [] := by
      rw [run_add, hRest, trail, (complete_finished hStay).1]
      rfl
    simp [hNil] at hPrefix
  classical
  have hMin := fun early => Nat.find_min (m := early) hEnds
  have hOver := Nat.find_spec hEnds
  cases hFind : Nat.find hEnds with
  | zero =>
    -- right after the entry the trail is just this one
    rw [hFind, Nat.add_zero, h] at hOver
    exact absurd (List.prefix_refl _) hOver
  | succ rest =>
    rw [hFind] at hMin hOver
    have hAbove : ∀ steps, first < steps → steps ≤ first + 1 + rest →
        (run next first (start vertices)).trail ++ [vertex] <+:
          (run next steps (start vertices)).trail := by
      intro steps hFirst hLast
      have hEarly := hMin (steps - (first + 1)) (by omega)
      rwa [not_not, Nat.add_sub_cancel' hFirst] at hEarly
    have hChange : TrailChange (run next (first + 1 + rest) (start vertices))
        (run next (first + 1 + rest + 1) (start vertices)) := trailChange_run ..
    obtain ⟨hBefore, hAfter⟩ :=
      (hChange.isPrefix_or (hAbove _ (by omega) le_rfl)).resolve_left hOver
    refine ⟨first + 1 + rest, by omega, h, hBefore.trans (by rw [hAfter]), hAbove, hAfter, ?_⟩
    rw [(tidy_run hStay _).active_eq, (tidy_run hStay _).active_eq, hAfter]

/-- A whole search enters every vertex once. -/
theorem existsUnique_entersAt (hStay : EdgesStay next vertices) {vertex : α}
    (hKnown : vertex ∈ vertices) : ∃! steps, EntersAt next vertices steps vertex := by
  obtain ⟨entry, steps, hStep, hBefore, hAfter⟩ := exists_justEntered hStay hKnown
  have hEnters : EntersAt next vertices steps vertex := by
    rw [← run_succ hStep] at hAfter
    exact (trailChange_run steps (start vertices)).trail_of_visited hBefore hAfter
  -- of two entries the later one would find the vertex visited
  have hOrder : ∀ {early late}, EntersAt next vertices early vertex →
      EntersAt next vertices late vertex → ¬ early < late := by
    intro early late hEarly hLate hLess
    have hSeen : vertex ∈ (run next (early + 1) (start vertices)).visited :=
      hEarly.visited.2 ▸ List.mem_cons_self ..
    exact hLate.visited.1 (visited_run_subset hLess _ hSeen)
  refine ⟨steps, hEnters, fun other hOther => ?_⟩
  exact le_antisymm (Nat.not_lt.mp (hOrder hEnters hOther)) (Nat.not_lt.mp (hOrder hOther hEnters))

end DebtGauge.Search
