import DebtGauge.ImportGraph.Search

/-!
# The moves of a search

`Search.step?` branches on the trail, on the roots and on the sets of vertices. `Move`
says once what a step can do, with the tests that led there as hypotheses; what a search
keeps is proved by cases on the move that it makes.

Main results:

* `step?_eq_some_iff` — the steps of a search are its moves.
* `step?_eq_none_iff` — a search ends when its trail and its roots are used up.
* `run_induction` — what holds at the start and is kept by every move holds after a run.
-/

namespace DebtGauge.Search

variable {α : Type} [DecidableEq α] {next : α → List α}

/-- What a single step does. -/
inductive Move (next : α → List α) (search : Search α) : Search α → Prop where
  /-- A root that was visited before is passed by. -/
  | passRoot {root roots} (hFrames : search.frames = []) (hRoots : search.roots = root :: roots)
      (hSeen : root ∈ search.visited) : Move next search { search with roots }
  /-- A root that was not visited starts a new trail. -/
  | enterRoot {root roots} (hFrames : search.frames = []) (hRoots : search.roots = root :: roots)
      (hNew : root ∉ search.visited) :
      Move next search ({ search with roots }.enter root (next root))
  /-- A vertex without further edges is left. -/
  | leave {vertex frames} (hFrames : search.frames = ⟨vertex, []⟩ :: frames) :
      Move next search (search.leave vertex frames)
  /-- An edge to a vertex that was not visited is followed. -/
  | descend {vertex target pending frames}
      (hFrames : search.frames = ⟨vertex, target :: pending⟩ :: frames)
      (hNew : target ∉ search.visited) :
      Move next search
        ({ search with frames := ⟨vertex, pending⟩ :: frames }.enter target (next target))
  /-- An edge back to the trail closes a loop. -/
  | closeLoop {vertex target pending frames}
      (hFrames : search.frames = ⟨vertex, target :: pending⟩ :: frames)
      (hSeen : target ∈ search.visited) (hActive : target ∈ search.active) :
      Move next search ({ search with frames := ⟨vertex, pending⟩ :: frames }.close target)
  /-- An edge to a vertex that was left before is passed by. -/
  | passEdge {vertex target pending frames}
      (hFrames : search.frames = ⟨vertex, target :: pending⟩ :: frames)
      (hSeen : target ∈ search.visited) (hLeft : target ∉ search.active) :
      Move next search { search with frames := ⟨vertex, pending⟩ :: frames }

/-- A step is one of the moves. -/
theorem move_of_step? {search after : Search α} (h : search.step? next = some after) :
    Move next search after := by
  unfold step? at h
  split at h
  case h_1 hFrames =>
    -- the trail is used up, so the next root decides
    split at h
    · simp at h
    case h_2 root roots hRoots =>
      by_cases hSeen : root ∈ search.visited
      · obtain rfl : { search with roots } = after := by simpa [hSeen] using h
        exact .passRoot hFrames hRoots hSeen
      · obtain rfl : { search with roots }.enter root (next root) = after := by
          simpa [hSeen] using h
        exact .enterRoot hFrames hRoots hSeen
  case h_2 vertex frames hFrames =>
    obtain rfl := Option.some.inj h
    exact .leave hFrames
  case h_3 vertex target pending frames hFrames =>
    -- an edge is looked at, and its target is new, on the trail, or left
    obtain rfl := Option.some.inj h
    unfold follow
    split
    case isTrue hNew => exact .descend hFrames hNew
    case isFalse hSeen =>
      have hSeen : target ∈ search.visited := Decidable.not_not.mp hSeen
      split
      case isTrue hActive => exact .closeLoop hFrames hSeen hActive
      case isFalse hLeft => exact .passEdge hFrames hSeen hLeft

theorem step?_of_move {search after : Search α} (move : Move next search after) :
    search.step? next = some after := by
  cases move with
  | passRoot hFrames hRoots hSeen => simp [step?, hFrames, hRoots, hSeen]
  | enterRoot hFrames hRoots hNew => simp [step?, hFrames, hRoots, hNew]
  | leave hFrames => simp [step?, hFrames]
  | descend hFrames hNew => simp [step?, follow, hFrames, hNew]
  | closeLoop hFrames hSeen hActive => simp [step?, follow, hFrames, hSeen, hActive]
  | passEdge hFrames hSeen hLeft => simp [step?, follow, hFrames, hSeen, hLeft]

/-- The steps of a search are its moves. -/
theorem step?_eq_some_iff {search after : Search α} :
    search.step? next = some after ↔ Move next search after :=
  ⟨move_of_step?, step?_of_move⟩

/-- A search ends when its trail and its roots are used up. -/
theorem step?_eq_none_iff {search : Search α} :
    search.step? next = none ↔ search.frames = [] ∧ search.roots = [] := by
  unfold step?
  split
  case h_1 hFrames => split <;> simp_all
  case h_2 hFrames => simp [hFrames]
  case h_3 hFrames => simp [hFrames]

/-- What every move keeps, a run keeps. -/
theorem run_induction {P : Search α → Prop}
    (hMove : ∀ search after, P search → Move next search after → P after)
    (steps : Nat) {search : Search α} (h : P search) : P (run next steps search) := by
  induction steps generalizing search with
  | zero => exact h
  | succ steps ih =>
    unfold run
    split
    case h_1 after hStep => exact ih (hMove search after h (move_of_step? hStep))
    case h_2 => exact h

end DebtGauge.Search
