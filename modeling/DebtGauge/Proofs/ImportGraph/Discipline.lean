import DebtGauge.Proofs.ImportGraph.Cycles
import DebtGauge.Proofs.Search.Recursion

/-!
# How the search for cycles keeps order

The cycles of a graph are read off a search that changes its trail, its sets of modules and its
list of loops at every step. At each step they fit together: the trail follows the imports without
repetition, and what was left behind has no import that was not visited. Each module is entered
once, and a visit to it gives the trail back as it was. So the search is a recursion that gets no
deeper than there are modules.

Main definitions and results:

* `searchAfter` — the search for the cycles of a graph, after some steps;
* `InOrder` — how the parts of the search fit together;
* `search_disciplined` — the search is in order at every step, its visits give back what they have
  found, every module is entered once, and the recursion comes to an end.
-/

namespace DebtGauge.ImportGraph

open Search

/-- The search for the cycles of a graph, after so many steps. -/
def searchAfter (graph : ImportGraph) (steps : Nat) : Search FilePath :=
  run graph.dependencies steps (start graph.paths)

/-- How the parts of a search for the cycles of a graph fit together. -/
structure InOrder (graph : ImportGraph) (search : Search FilePath) : Prop where
  trail_nodup : search.trail.Nodup
  active_iff : ∀ path, path ∈ search.active ↔ path ∈ search.trail
  trail_visited : ∀ path ∈ search.trail, path ∈ search.visited
  /-- Each module on the trail imports the next one. -/
  trail_linked : search.trail.IsChain fun importer path => path ∈ graph.dependencies importer
  /-- All that a module imports was visited by the time it is left. -/
  left_done : ∀ path ∈ search.visited, path ∉ search.trail →
    ∀ target ∈ graph.dependencies path, target ∈ search.visited
  /-- A module that is noted as being on the trail is found there. -/
  found : ∀ path ∈ search.active, ∃ index, search.trail.idxOf? path = some index
  depth_le : search.trail.length ≤ graph.moduleCount

theorem dependencies_stay (graph : ImportGraph) : EdgesStay graph.dependencies graph.paths :=
  fun path _ => graph.dependencies_known path

/-- The search is in order at every step. -/
theorem inOrder_searchAfter (graph : ImportGraph) (steps : Nat) :
    InOrder graph (graph.searchAfter steps) := by
  have hInv : Invariant graph.dependencies graph.paths (graph.searchAfter steps) :=
    invariant_run graph.dependencies_stay steps
  have hTidy : Tidy graph.dependencies (graph.searchAfter steps) :=
    tidy_run graph.dependencies_stay steps
  exact {
    trail_nodup := hInv.trail_nodup
    active_iff := hInv.active_iff
    trail_visited := hInv.trail_visited
    trail_linked := hInv.trail_path
    left_done := fun path hVisited hLeft target hTarget =>
      hTidy.visited_of_left hVisited hLeft hTarget
    found := fun path hActive =>
      (exists_idxOf?_eq ((hInv.active_iff path).mp hActive)).imp fun _ hFound => hFound.1
    depth_le := hInv.length_trail_le }

theorem tidy_complete (graph : ImportGraph) :
    Tidy graph.dependencies (complete graph.dependencies graph.paths) :=
  tidy_run graph.dependencies_stay _

/-- In the end every module was visited, each of them once. -/
theorem visited_complete (graph : ImportGraph) :
    (complete graph.dependencies graph.paths).visited.Nodup ∧
      ∀ path, path ∈ (complete graph.dependencies graph.paths).visited ↔ path ∈ graph.paths := by
  refine ⟨graph.tidy_complete.visited_nodup, fun path => ?_⟩
  refine ⟨graph.search_invariant.visited_known path, fun hKnown => ?_⟩
  refine (graph.search_invariant.root_or_visited path hKnown).resolve_left fun hRoot => ?_
  rw [(complete_finished graph.dependencies_stay).2] at hRoot
  exact absurd hRoot List.not_mem_nil

/-- The search for the cycles of a graph is in order at every step. A module that is entered is a
known one, and the search leaves it again with the trail as it was; a visit of the recursion gives
the trail back, too. Every known module is entered once. The recursion that may get as deep as
there are modules does not fail: it finds every module that closes a loop on its path, visits each
known module, and closes the loops that the cycles are taken from. -/
theorem search_disciplined (graph : ImportGraph) :
    (∀ steps, InOrder graph (graph.searchAfter steps)) ∧
      (∀ first path, EntersAt graph.dependencies graph.paths first path → path ∈ graph.paths ∧
        ∃ last, first < last ∧ IsVisit graph.dependencies graph.paths path first last) ∧
      (∀ depth state path after, state.active ⊆ state.visited → path ∉ state.visited →
        visit? graph.dependencies depth state path = some after →
          after.path = state.path ∧ after.active = state.active) ∧
      (∀ path ∈ graph.paths, ∃! steps, EntersAt graph.dependencies graph.paths steps path) ∧
      ∃ final, visitAll? graph.dependencies graph.moduleCount graph.paths = some final ∧
        final.path = [] ∧ final.active = [] ∧
        final.visited.Nodup ∧ (∀ path, path ∈ final.visited ↔ path ∈ graph.paths) ∧
        final.closed.reverse.map Cycle.mk = graph.loops := by
  have hStay := graph.dependencies_stay
  refine ⟨graph.inOrder_searchAfter, fun first path hEnters => ?_, ?_, fun path hKnown => ?_, ?_⟩
  · exact ⟨hEnters.known hStay, exists_isVisit hStay hEnters⟩
  · intro depth state path after hActive hNew hVisit
    have hRestores := visit?_restores hActive hNew hVisit
    exact ⟨hRestores.path_eq, hRestores.active_eq⟩
  · exact existsUnique_entersAt hStay hKnown
  · have hTrail : (complete graph.dependencies graph.paths).trail = [] := by
      rw [trail, (complete_finished hStay).1]
      rfl
    have hActive : (complete graph.dependencies graph.paths).active = [] := by
      rw [graph.tidy_complete.active_eq, hTrail]
      rfl
    obtain ⟨hNodup, hAll⟩ := graph.visited_complete
    refine ⟨_, visitAll?_eq hStay, hTrail, hActive, hNodup, hAll, rfl⟩

/-- Of two modules that import each other, the search enters the first one with its first step, and
never again. A visit to it, which may be two modules deep, gives back the empty trail. -/
theorem search_disciplined_mutualImports :
    (EntersAt (after mutualImports).dependencies (after mutualImports).paths 0 ⟨"a.ts"⟩ ∧
        ∃ last, 0 < last ∧ IsVisit (after mutualImports).dependencies (after mutualImports).paths
          ⟨"a.ts"⟩ 0 last) ∧
      (∃ final, visit? (after mutualImports).dependencies 2 ⟨[], [], [], []⟩ ⟨"a.ts"⟩ = some final ∧
        final.path = [] ∧ final.active = []) ∧
      ∃! steps, EntersAt (after mutualImports).dependencies (after mutualImports).paths steps
        ⟨"a.ts"⟩ := by
  obtain ⟨-, hVisits, hRestores, hOnce, -⟩ := search_disciplined (after mutualImports)
  have hEnters : EntersAt (after mutualImports).dependencies (after mutualImports).paths 0
      ⟨"a.ts"⟩ := by
    unfold EntersAt
    decide +kernel
  have hSucceeds : (visit? (after mutualImports).dependencies 2 ⟨[], [], [], []⟩
      ⟨"a.ts"⟩).isSome := by
    decide +kernel
  obtain ⟨hKnown, hLeft⟩ := hVisits 0 _ hEnters
  obtain ⟨final, hFinal⟩ := Option.isSome_iff_exists.mp hSucceeds
  refine ⟨⟨hEnters, hLeft⟩, ⟨final, hFinal, ?_⟩, hOnce _ hKnown⟩
  exact hRestores 2 _ _ final (List.nil_subset _) List.not_mem_nil hFinal

end DebtGauge.ImportGraph
