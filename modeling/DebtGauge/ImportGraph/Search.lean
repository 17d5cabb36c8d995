import DebtGauge.Tally

/-!
# Depth-first search for loops

A search visits the vertices of a graph depth first. It keeps the trail from the vertex
it started at to the vertex it has reached; an edge to a vertex on the trail closes a
loop, which is the part of the trail from that vertex on. A vertex is entered once, so an
edge to a vertex that was left before is not followed.

The search is a sequence of single steps, each of which enters a vertex, leaves one, or
passes an edge or a root by.

Main definitions:

* `Search` — what a search has done and has still to do;
* `Search.step?` — the next step of a search;
* `closedLoops` — the loops that a whole search closes.
-/

namespace DebtGauge

/-- A vertex on the trail, with the targets of its edges that are still to be looked at. -/
structure Frame (α : Type) where
  vertex : α
  pending : List α
deriving DecidableEq

/-- A search that is under way. Lists that grow hold their latest item first. -/
structure Search (α : Type) where
  /-- The vertices on the trail, the one reached last first. -/
  frames : List (Frame α)
  /-- The set of the vertices on the trail. -/
  active : List α
  /-- The vertices that were entered. -/
  visited : List α
  /-- The loops that were closed. -/
  closed : List (List α)
  /-- The vertices from which the search may still be started. -/
  roots : List α
deriving DecidableEq

namespace Search

variable {α : Type}

/-- A search that has done nothing yet. -/
def start (roots : List α) : Search α :=
  { frames := [], active := [], visited := [], closed := [], roots }

/-- The vertices on the trail, from the one the search started at. -/
def trail (search : Search α) : List α :=
  (search.frames.map (·.vertex)).reverse

/-- Enters a vertex whose edges lead to `targets`. -/
def enter (search : Search α) (vertex : α) (targets : List α) : Search α :=
  { search with
    frames := ⟨vertex, targets⟩ :: search.frames
    active := vertex :: search.active
    visited := vertex :: search.visited }

theorem trail_enter (search : Search α) (vertex : α) (targets : List α) :
    (search.enter vertex targets).trail = search.trail ++ [vertex] := by
  simp [trail, enter]

variable [DecidableEq α]

/-- Closes the loop of an edge that leads back to a vertex on the trail. -/
def close (search : Search α) (vertex : α) : Search α :=
  if vertex ∈ search.trail then
    { search with closed := search.trail.dropWhile (· ≠ vertex) :: search.closed }
  else search

/-- Leaves a vertex, with `frames` as the rest of the trail. -/
def leave (search : Search α) (vertex : α) (frames : List (Frame α)) : Search α :=
  { search with frames, active := search.active.filter (· ≠ vertex) }

/-- Looks at the edge to `target`. -/
def follow (next : α → List α) (search : Search α) (target : α) : Search α :=
  if target ∉ search.visited then search.enter target (next target)
  else if target ∈ search.active then search.close target
  else search

/-- The next step of a search, unless all is done. -/
def step? (next : α → List α) (search : Search α) : Option (Search α) :=
  match search.frames with
  | [] =>
    match search.roots with
    | [] => none
    | root :: roots =>
      let search := { search with roots }
      some (if root ∈ search.visited then search else search.enter root (next root))
  | ⟨vertex, []⟩ :: frames => some (search.leave vertex frames)
  | ⟨vertex, target :: pending⟩ :: frames =>
    some (follow next { search with frames := ⟨vertex, pending⟩ :: frames } target)

/-- Makes up to `steps` steps. -/
def run (next : α → List α) : Nat → Search α → Search α
  | 0, search => search
  | steps + 1, search =>
    match search.step? next with
    | some search => run next steps search
    | none => search

/-- The number of steps of a whole search: each vertex is taken as a root, entered and
left once, and each edge is looked at once. -/
def stepBound (next : α → List α) (vertices : List α) : Nat :=
  tally (fun vertex => (next vertex).length + 3) vertices

/-- A whole search over the given vertices. -/
def complete (next : α → List α) (vertices : List α) : Search α :=
  run next (stepBound next vertices) (start vertices)

end Search

/-- The loops that a search over the given vertices closes, in the order in which it
closes them. -/
def closedLoops {α : Type} [DecidableEq α] (next : α → List α) (vertices : List α) :
    List (List α) :=
  (Search.complete next vertices).closed.reverse

end DebtGauge
