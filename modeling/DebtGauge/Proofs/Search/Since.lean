import DebtGauge.Proofs.Search.Invariant
import Mathlib.Data.List.TakeWhile

/-!
# A search since it has entered a vertex

A search closes a loop through a vertex while this vertex is on the trail or not at all: it
enters no vertex twice. While the vertex is on the trail, the search goes, from the vertex on,
wherever it can go without a vertex that was visited before. So once the vertex is left, a loop
through it was closed just if a way led back to the trail past none of the vertices that were
visited when it was entered.

Main definitions and results:

* `LeadsBack` — a way from the vertex back to the trail;
* `Since` — what holds of a search since it has entered the vertex;
* `since_enter` — it holds at the entry;
* `Since.move` — every move after the entry keeps it.
-/

namespace DebtGauge.Search

open Relation

variable {α : Type} {next : α → List α} {vertices : List α}

/-- A way leads from `vertex` back to the trail of `entry`, past none of the vertices that were
visited by then. -/
def LeadsBack (next : α → List α) (entry : Search α) (vertex : α) : Prop :=
  ∃ last target, ReflTransGen (fun a b => Edge next a b ∧ b ∉ entry.visited) vertex last ∧
    Edge next last target ∧ target ∈ entry.trail

/-- A vertex that was entered since, `vertex` itself included. -/
def EnteredSince (entry : Search α) (vertex : α) (search : Search α) (other : α) : Prop :=
  other = vertex ∨ other ∈ search.visited ∧ other ∉ entry.visited

/-- An edge to `target` was looked at: its target is visited, and if it leads back to the trail
of `entry`, a loop through `vertex` was closed. -/
def LookedAt (entry : Search α) (vertex : α) (search : Search α) (target : α) : Prop :=
  target ∈ search.visited ∧
    (target ∈ entry.trail → ∃ loop ∈ search.closed, vertex ∈ loop)

/-- What is true of the entry itself. -/
structure IsEntry (next : α → List α) (entry : Search α) (vertex : α) : Prop where
  last_eq : entry.trail.getLast? = some vertex
  trail_visited : ∀ other ∈ entry.trail, other ∈ entry.visited

/-- What holds of a search since it has entered `vertex`. -/
structure Since (next : α → List α) (entry : Search α) (vertex : α) (search : Search α) :
    Prop where
  visited_mono : entry.visited ⊆ search.visited
  /-- As long as the vertex is on the trail, the trail has grown by new vertices. -/
  trail_grown : vertex ∈ search.trail →
    ∃ above, search.trail = entry.trail ++ above ∧ ∀ other ∈ above, other ∉ entry.visited
  /-- As long as the vertex is on the trail, every edge of the vertices that were entered since
  is still to be looked at or was looked at. -/
  edges : vertex ∈ search.trail → ∀ other, EnteredSince entry vertex search other →
    ∀ target ∈ next other, (∃ frame ∈ search.frames, frame.vertex = other ∧
      target ∈ frame.pending) ∨ LookedAt entry vertex search target
  closed_back : (∃ loop ∈ search.closed, vertex ∈ loop) → LeadsBack next entry vertex
  /-- Once the vertex was left, no loop through it is missing. -/
  left_closed : vertex ∉ search.trail → LeadsBack next entry vertex →
    ∃ loop ∈ search.closed, vertex ∈ loop

/-! ## The entry -/

theorem LookedAt.mono {entry search after : Search α} {vertex target : α}
    (h : LookedAt entry vertex search target) (hVisited : search.visited ⊆ after.visited)
    (hClosed : search.closed ⊆ after.closed) : LookedAt entry vertex after target := by
  refine ⟨hVisited h.1, fun hTarget => ?_⟩
  obtain ⟨loop, hLoop, hVertex⟩ := h.2 hTarget
  exact ⟨loop, hClosed hLoop, hVertex⟩

/-- Nothing has happened yet since a vertex was entered that was in no loop before. -/
theorem since_enter {before : Search α} {vertex : α}
    (hClosed : ∀ loop ∈ before.closed, vertex ∉ loop) :
    Since next (before.enter vertex (next vertex)) vertex (before.enter vertex (next vertex)) where
  visited_mono := List.Subset.refl _
  trail_grown := fun _ => ⟨[], by simp, by simp⟩
  edges := by
    intro _ other hSince target hTarget
    -- the vertex is the only one that was entered, and none of its edges was looked at
    rcases hSince with rfl | ⟨hVisited, hNew⟩
    · exact Or.inl ⟨⟨other, next other⟩, List.mem_cons_self .., rfl, hTarget⟩
    · exact absurd hVisited hNew
  closed_back := by
    rintro ⟨loop, hLoop, hVertex⟩
    exact absurd hVertex (hClosed loop hLoop)
  left_closed := by
    intro hLeft
    simp [trail_enter] at hLeft

/-! ## The trail since the entry -/

section Kept

variable {entry search : Search α} {vertex : α}

/-- While the vertex is the last one on the trail, the trail is the one of the entry. -/
theorem Since.trail_eq_of_last (h : Since next entry vertex search)
    (hNodup : search.trail.Nodup) (hEntry : entry.trail.getLast? = some vertex)
    (hLast : search.trail.getLast? = some vertex) : search.trail = entry.trail := by
  obtain ⟨above, hTrail, -⟩ := h.trail_grown (List.mem_of_getLast? hLast)
  rcases List.eq_nil_or_concat' above with rfl | ⟨init, last, rfl⟩
  · rw [hTrail, List.append_nil]
  · -- the vertex would be on the trail twice
    have hSame : last = vertex := by
      rw [hTrail, ← List.append_assoc, List.getLast?_concat] at hLast
      exact Option.some.inj hLast
    rw [hTrail, List.nodup_append] at hNodup
    exact absurd hSame.symm
      (hNodup.2.2 vertex (List.mem_of_getLast? hEntry) last (by simp))

/-- The way up the trail from the vertex passes new vertices only. -/
theorem reaches_getLast_above {vertex : α} {above : List α} {visited : List α}
    (hPath : IsPath next (vertex :: above)) (hNew : ∀ other ∈ above, other ∉ visited) {last : α}
    (hLast : (vertex :: above).getLast? = some last) :
    ReflTransGen (fun a b => Edge next a b ∧ b ∉ visited) vertex last := by
  induction above generalizing vertex with
  | nil =>
    obtain rfl : vertex = last := by simpa using hLast
    exact .refl
  | cons other above ih =>
    obtain ⟨hEdge, hRest⟩ := List.isChain_cons_cons.mp hPath
    have hOther := hNew other (List.mem_cons_self ..)
    refine .head ⟨hEdge, hOther⟩ (ih hRest (fun o ho => hNew o (List.mem_cons_of_mem _ ho)) ?_)
    rwa [List.getLast?_cons_cons] at hLast

/-! ## What is kept while nothing is decided -/

/-- Off the trail the vertex stays, and nothing is lost. -/
theorem Since.of_off_trail {after : Search α} (h : Since next entry vertex search)
    (hVisited : search.visited ⊆ after.visited) (hClosed : after.closed = search.closed)
    (hOff : vertex ∉ search.trail) (hOff' : vertex ∉ after.trail) :
    Since next entry vertex after where
  visited_mono := List.Subset.trans h.visited_mono hVisited
  trail_grown := fun hOn => absurd hOn hOff'
  edges := fun hOn => absurd hOn hOff'
  closed_back := hClosed ▸ h.closed_back
  left_closed := fun _ => hClosed ▸ h.left_closed hOff

/-- An edge of the last vertex was looked at, and the others are as they were. -/
theorem Since.edges_lookAt {after : Search α} (h : Since next entry vertex search) {top : α}
    {target : α} {pending : List α} {frames : List (Frame α)}
    (hFrames : search.frames = ⟨top, target :: pending⟩ :: frames)
    (hTarget : LookedAt entry vertex after target)
    (hAfter : ∀ frame ∈ (⟨top, pending⟩ :: frames : List (Frame α)), frame ∈ after.frames)
    (hVisited : search.visited ⊆ after.visited) (hClosed : search.closed ⊆ after.closed)
    (hOn : vertex ∈ search.trail) {other : α} (hSince : EnteredSince entry vertex search other)
    {goal : α} (hGoal : goal ∈ next other) :
    (∃ frame ∈ after.frames, frame.vertex = other ∧ goal ∈ frame.pending) ∨
      LookedAt entry vertex after goal := by
  rcases h.edges hOn other hSince goal hGoal with ⟨frame, hFrame, hVertex, hPending⟩ | hLooked
  · rw [hFrames] at hFrame
    rcases List.mem_cons.mp hFrame with rfl | hBelow
    · rcases List.mem_cons.mp hPending with rfl | hPending
      · exact Or.inr hTarget
      · exact Or.inl ⟨⟨top, pending⟩, hAfter _ (List.mem_cons_self ..), hVertex, hPending⟩
    · exact Or.inl ⟨frame, hAfter _ (List.mem_cons_of_mem _ hBelow), hVertex, hPending⟩
  · exact Or.inr (hLooked.mono hVisited hClosed)

theorem Since.passEdge (h : Since next entry vertex search) {top target : α} {pending : List α}
    {frames : List (Frame α)} (hFrames : search.frames = ⟨top, target :: pending⟩ :: frames)
    (hSeen : target ∈ search.visited) (hOff : target ∉ search.trail) :
    Since next entry vertex { search with frames := ⟨top, pending⟩ :: frames } := by
  refine ⟨h.visited_mono, ?_, ?_, h.closed_back, ?_⟩ <;> rw [trail_lookedAt hFrames]
  · exact h.trail_grown
  · intro hOn other hSince goal hGoal
    obtain ⟨above, hGrown, -⟩ := h.trail_grown hOn
    have hLooked : LookedAt entry vertex { search with frames := ⟨top, pending⟩ :: frames }
        target :=
      ⟨hSeen, fun hv => absurd (hGrown ▸ List.mem_append_left _ hv) hOff⟩
    exact h.edges_lookAt hFrames hLooked (fun _ hFrame => hFrame) (List.Subset.refl _)
      (List.Subset.refl _) hOn hSince hGoal
  · exact h.left_closed

/-- A way that leads back was taken by the time the vertex is left: the vertices on it were all
entered, and all their edges looked at. -/
theorem Since.closed_of_left (h : Since next entry vertex search)
    (hEntry : IsEntry next entry vertex) (hInv : Invariant next vertices search)
    {frames : List (Frame α)}
    (hFrames : search.frames = ⟨vertex, []⟩ :: frames) (hBack : LeadsBack next entry vertex) :
    ∃ loop ∈ search.closed, vertex ∈ loop := by
  have hLast : search.trail.getLast? = some vertex := by
    rw [trail_of_frames hFrames, List.getLast?_concat]
  have hOn : vertex ∈ search.trail := List.mem_of_getLast? hLast
  have hSame := h.trail_eq_of_last hInv.trail_nodup hEntry.last_eq hLast
  -- nothing is pending any more at a vertex that was entered since
  have hLooked : ∀ other, EnteredSince entry vertex search other → ∀ target ∈ next other,
      LookedAt entry vertex search target := by
    intro other hSince target hTarget
    refine (h.edges hOn other hSince target hTarget).resolve_left ?_
    rintro ⟨frame, hFrame, rfl, hPending⟩
    rw [hFrames] at hFrame
    rcases List.mem_cons.mp hFrame with rfl | hBelow
    · simp at hPending
    · have hTrail : frame.vertex ∈ search.trail :=
        mem_trail_iff.mpr (List.mem_map_of_mem (hFrames ▸ List.mem_cons_of_mem _ hBelow))
      rcases hSince with hVertex | ⟨-, hNew⟩
      · -- the vertex has one frame only
        have hNodup := hInv.trail_nodup
        rw [trail_of_frames hFrames, List.nodup_append] at hNodup
        have hMem : frame.vertex ∈ (frames.map (·.vertex)).reverse :=
          List.mem_reverse.mpr (List.mem_map_of_mem hBelow)
        exact hNodup.2.2 _ hMem vertex (by simp) hVertex
      · exact hNew (hEntry.trail_visited _ (hSame ▸ hTrail))
  have hEntered : ∀ last, ReflTransGen (fun a b => Edge next a b ∧ b ∉ entry.visited) vertex last →
      EnteredSince entry vertex search last := by
    intro last hWay
    induction hWay with
    | refl => exact Or.inl rfl
    | tail _ hStep ih => exact Or.inr ⟨(hLooked _ ih _ hStep.1).1, hStep.2⟩
  obtain ⟨last, target, hWay, hEdge, hTarget⟩ := hBack
  exact (hLooked last (hEntered last hWay) target hEdge).2 hTarget

end Kept

variable [DecidableEq α]

/-- A loop that is cut off a longer trail goes through the last vertex of the old trail just if
it starts on the old trail. -/
theorem mem_dropWhile_append_iff {old above : List α} {vertex target : α}
    (hLast : old.getLast? = some vertex) (hNodup : (old ++ above).Nodup) :
    vertex ∈ (old ++ above).dropWhile (· ≠ target) ↔ target ∈ old := by
  have hVertex := List.mem_of_getLast? hLast
  by_cases hOld : target ∈ old
  · have hKept : ¬ (old.dropWhile (· ≠ target)).isEmpty := by
      rw [List.isEmpty_iff]
      exact dropWhile_ne_ne_nil hOld
    have hCut : (old ++ above).dropWhile (· ≠ target) = old.dropWhile (· ≠ target) ++ above := by
      rw [List.dropWhile_append, if_neg hKept]
    have hEnd : vertex ∈ old.dropWhile (· ≠ target) :=
      List.mem_of_getLast? ((getLast?_dropWhile_ne hOld).trans hLast)
    rw [hCut]
    exact ⟨fun _ => hOld, fun _ => List.mem_append_left _ hEnd⟩
  · -- the whole old trail is dropped, and the vertex is not on the rest
    have hGone : old.dropWhile (· ≠ target) = [] := by
      rw [List.dropWhile_eq_nil_iff]
      intro other hOther
      simpa using fun hEq : other = target => hOld (hEq ▸ hOther)
    rw [List.dropWhile_append, hGone]
    refine iff_of_false (fun hMem => ?_) hOld
    have hAbove : vertex ∈ above := (List.dropWhile_sublist _).subset (by simpa using hMem)
    exact (List.nodup_append.mp hNodup).2.2 vertex hVertex vertex hAbove rfl

/-! ## Moves since the entry -/

section Moves

variable {entry search : Search α} {vertex : α}

theorem Since.leave (h : Since next entry vertex search) (hEntry : IsEntry next entry vertex)
    (hInv : Invariant next vertices search) {top : α} {frames : List (Frame α)}
    (hFrames : search.frames = ⟨top, []⟩ :: frames) :
    Since next entry vertex (search.leave top frames) := by
  have hTrail : search.trail = (search.leave top frames).trail ++ [top] :=
    trail_of_frames hFrames
  refine ⟨h.visited_mono, ?_, ?_, h.closed_back, ?_⟩
  · intro hOn
    obtain ⟨above, hGrown, hNew⟩ := h.trail_grown (hTrail ▸ List.mem_append_left _ hOn)
    -- what is left is above the vertex
    rcases List.eq_nil_or_concat' above with rfl | ⟨init, last, rfl⟩
    · have hSame : vertex = top := by
        have hLast := hEntry.last_eq
        rw [← List.append_nil entry.trail, ← hGrown, hTrail, List.getLast?_concat] at hLast
        exact (Option.some.inj hLast).symm
      have hNodup := hInv.trail_nodup
      rw [hTrail, List.nodup_append] at hNodup
      exact absurd hSame (hNodup.2.2 vertex hOn top (by simp))
    · rw [hTrail, ← List.append_assoc] at hGrown
      have hInit := (List.append_inj' hGrown rfl).1
      exact ⟨init, hInit, fun other hOther => hNew other (List.mem_append_left _ hOther)⟩
  · intro hOn other hSince target hTarget
    have hOn' : vertex ∈ search.trail := hTrail ▸ List.mem_append_left _ hOn
    refine (h.edges hOn' other hSince target hTarget).imp_left ?_
    rintro ⟨frame, hFrame, hVertex, hPending⟩
    rw [hFrames] at hFrame
    rcases List.mem_cons.mp hFrame with rfl | hBelow
    · simp at hPending
    · exact ⟨frame, hBelow, hVertex, hPending⟩
  · intro hLeft hBack
    by_cases hOn : vertex ∈ search.trail
    · have hSame : vertex = top := by
        rw [hTrail, List.mem_append, List.mem_singleton] at hOn
        exact hOn.resolve_left hLeft
      subst hSame
      exact h.closed_of_left hEntry hInv hFrames hBack
    · exact h.left_closed hOn hBack

theorem Since.descend (h : Since next entry vertex search) (hEntry : IsEntry next entry vertex)
    (hSeen : vertex ∈ entry.visited) {top target : α} {pending : List α}
    {frames : List (Frame α)} (hFrames : search.frames = ⟨top, target :: pending⟩ :: frames)
    (hNew : target ∉ search.visited) :
    Since next entry vertex
      ({ search with frames := ⟨top, pending⟩ :: frames }.enter target (next target)) := by
  have hTrail : ({ search with frames := ⟨top, pending⟩ :: frames }.enter target
      (next target)).trail = search.trail ++ [target] := by
    rw [trail_enter, trail_lookedAt hFrames]
  have hOther : vertex ≠ target := fun hEq => hNew (hEq ▸ h.visited_mono hSeen)
  have hBefore : ∀ {v}, v ∈ entry.visited → v ≠ target := fun hv hEq =>
    hNew (hEq ▸ h.visited_mono hv)
  have hOn : vertex ∈ ({ search with frames := ⟨top, pending⟩ :: frames }.enter target
      (next target)).trail → vertex ∈ search.trail := by
    rw [hTrail, List.mem_append, List.mem_singleton]
    exact fun hMem => hMem.resolve_right hOther
  refine ⟨List.Subset.trans h.visited_mono (List.subset_cons_self ..), ?_, ?_, h.closed_back, ?_⟩
  · intro hMem
    obtain ⟨above, hGrown, hAbove⟩ := h.trail_grown (hOn hMem)
    refine ⟨above ++ [target], by rw [hTrail, hGrown, List.append_assoc], ?_⟩
    intro other hOther
    rcases List.mem_append.mp hOther with hOther | hOther
    · exact hAbove other hOther
    · obtain rfl := List.mem_singleton.mp hOther
      exact fun hv => hBefore hv rfl
  · intro hMem other hSince goal hGoal
    by_cases hNewest : other = target
    · subst hNewest
      exact Or.inl ⟨⟨other, next other⟩, List.mem_cons_self .., rfl, hGoal⟩
    · have hSince' : EnteredSince entry vertex search other := by
        refine hSince.imp_right fun hv => ⟨?_, hv.2⟩
        exact (List.mem_cons.mp hv.1).resolve_left hNewest
      -- a vertex that was not visited is not on the trail of the entry
      have hLooked : LookedAt entry vertex ({ search with
          frames := ⟨top, pending⟩ :: frames }.enter target (next target)) target :=
        ⟨List.mem_cons_self .., fun hv => absurd rfl (hBefore (hEntry.trail_visited target hv))⟩
      exact h.edges_lookAt hFrames hLooked (fun frame hFrame => List.mem_cons_of_mem _ hFrame)
        (List.subset_cons_self ..) (List.Subset.refl _) (hOn hMem) hSince' hGoal
  · intro hLeft
    refine h.left_closed fun hMem => hLeft ?_
    rw [hTrail]
    exact List.mem_append_left _ hMem

theorem Since.close (h : Since next entry vertex search) (hEntry : IsEntry next entry vertex)
    (hInv : Invariant next vertices search) {top target : α} {pending : List α}
    {frames : List (Frame α)} (hFrames : search.frames = ⟨top, target :: pending⟩ :: frames)
    (hSeen : target ∈ search.visited) (hTarget : target ∈ search.trail) :
    Since next entry vertex ({ search with frames := ⟨top, pending⟩ :: frames }.close target) := by
  rw [close_of_mem ((trail_lookedAt hFrames).symm ▸ hTarget), trail_lookedAt hFrames]
  have hTrail : { search with
      frames := ⟨top, pending⟩ :: frames
      closed := search.trail.dropWhile (· ≠ target) :: search.closed }.trail = search.trail :=
    trail_lookedAt hFrames
  -- while the vertex is on the trail, the loop goes through it just if it starts below it
  have hThrough : ∀ above, search.trail = entry.trail ++ above →
      (vertex ∈ search.trail.dropWhile (· ≠ target) ↔ target ∈ entry.trail) := by
    intro above hGrown
    have hNodup := hInv.trail_nodup
    rw [hGrown] at hNodup ⊢
    exact mem_dropWhile_append_iff hEntry.last_eq hNodup
  refine ⟨h.visited_mono, ?_, ?_, ?_, ?_⟩ <;> try rw [hTrail]
  · exact h.trail_grown
  · intro hOn other hSince goal hGoal
    obtain ⟨above, hGrown, -⟩ := h.trail_grown hOn
    have hLooked : LookedAt entry vertex { search with
        frames := ⟨top, pending⟩ :: frames
        closed := search.trail.dropWhile (· ≠ target) :: search.closed } target :=
      ⟨hSeen, fun hv => ⟨_, List.mem_cons_self .., (hThrough above hGrown).mpr hv⟩⟩
    exact h.edges_lookAt hFrames hLooked (fun _ hFrame => hFrame) (List.Subset.refl _)
      (List.subset_cons_self ..) hOn hSince hGoal
  · rintro ⟨loop, hLoop, hVertex⟩
    rcases List.mem_cons.mp hLoop with rfl | hLoop
    · -- the way up the trail and over the edge that closes the loop
      have hOn : vertex ∈ search.trail := (List.dropWhile_sublist _).subset hVertex
      obtain ⟨above, hGrown, hNew⟩ := h.trail_grown hOn
      obtain ⟨init, hInit⟩ : ∃ init, entry.trail = init ++ [vertex] :=
        List.getLast?_eq_some_iff.mp hEntry.last_eq
      have hSplit : search.trail = init ++ (vertex :: above) := by
        rw [hGrown, hInit, List.append_assoc, List.singleton_append]
      have hPath : IsPath next (vertex :: above) :=
        (hSplit ▸ hInv.trail_path : IsPath next (init ++ (vertex :: above))).right_of_append
      have hTop : (vertex :: above).getLast? = some top := by
        have hLast : search.trail.getLast? = some top := by
          rw [trail_of_frames hFrames, List.getLast?_concat]
        rwa [hSplit, List.getLast?_append_of_ne_nil _ (List.cons_ne_nil _ _)] at hLast
      exact ⟨top, target, reaches_getLast_above hPath hNew hTop, hInv.edge_of_pending hFrames,
        (hThrough above hGrown).mp hVertex⟩
    · exact h.closed_back ⟨loop, hLoop, hVertex⟩
  · intro hLeft hBack
    obtain ⟨loop, hLoop, hVertex⟩ := h.left_closed hLeft hBack
    exact ⟨loop, List.mem_cons_of_mem _ hLoop, hVertex⟩

/-- Every move after the entry keeps what holds since. -/
theorem Since.move {after : Search α} (h : Since next entry vertex search)
    (hEntry : IsEntry next entry vertex) (hInv : Invariant next vertices search)
    (move : Move next search after) : Since next entry vertex after := by
  have hSeen : vertex ∈ entry.visited :=
    hEntry.trail_visited vertex (List.mem_of_getLast? hEntry.last_eq)
  cases move with
  | passRoot hFrames hRoots hRoot =>
    have hOff : vertex ∉ search.trail := by simp [trail, hFrames]
    exact h.of_off_trail (List.Subset.refl _) rfl hOff hOff
  | @enterRoot root roots hFrames hRoots hNew =>
    have hOff : vertex ∉ search.trail := by simp [trail, hFrames]
    refine h.of_off_trail (List.subset_cons_self ..) rfl hOff ?_
    have hOther : vertex ≠ root := fun hEq => hNew (hEq ▸ h.visited_mono hSeen)
    rw [trail_enter, List.mem_append, List.mem_singleton]
    exact not_or.mpr ⟨hOff, hOther⟩
  | leave hFrames => exact h.leave hEntry hInv hFrames
  | descend hFrames hNew => exact h.descend hEntry hSeen hFrames hNew
  | closeLoop hFrames hTarget hActive =>
    exact h.close hEntry hInv hFrames hTarget ((hInv.active_iff _).mp hActive)
  | passEdge hFrames hTarget hLeft =>
    exact h.passEdge hFrames hTarget (mt (hInv.active_iff _).mpr hLeft)

end Moves

end DebtGauge.Search
