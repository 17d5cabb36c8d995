import DebtGauge.Proofs.ImportGraph.Merging
import DebtGauge.Proofs.Search.Entry

/-!
# Which modules are mentioned in a report

A module can be on a cycle and in none of the cycles that a graph reports. A module that the
search has left is not entered again, so a cycle that comes back through it is never closed.
What the search has visited when it enters a module decides whether the module will be
mentioned.

Main results:

* `mentioned_iff_leadsBack` — a module is mentioned just if imports lead from it back to the
  trail, past none of the modules visited when it was entered; so the first module of each
  component with a cycle is.
* `unmentioned_on_cycle` — a module on a cycle that is not mentioned.
-/

namespace DebtGauge

open Relation Search

namespace ImportGraph

variable (graph : ImportGraph)

/-- Without bars in paths, the files of the loops are those of the reported cycles. -/
theorem mem_cycles_iff_mem_loops (hBar : ∀ path ∈ graph.paths, '|' ∉ path.text.toList)
    {path : FilePath} : (∃ cycle ∈ graph.cycles, path ∈ cycle.files) ↔
      ∃ loop ∈ graph.loops, path ∈ loop.files := by
  constructor
  · rintro ⟨cycle, hCycle, hPath⟩
    exact ⟨cycle, graph.mem_loops_of_mem_cycles hCycle, hPath⟩
  · rintro ⟨loop, hLoop, hPath⟩
    obtain ⟨first, hReported, -, hKey⟩ := graph.exists_first hLoop
    have hFirst := graph.mem_loops_of_mem_cycles hReported
    have hSame := graph.sameFiles_of_key_eq hBar hFirst hLoop hKey
    exact ⟨first, hReported, (hSame path).mpr hPath⟩

theorem mem_loops_iff_mem_closed {path : FilePath} : (∃ loop ∈ graph.loops, path ∈ loop.files) ↔
    ∃ files ∈ (complete graph.dependencies graph.paths).closed, path ∈ files := by
  constructor
  · rintro ⟨loop, hLoop, hPath⟩
    exact ⟨loop.files, graph.mem_loops.mp hLoop, hPath⟩
  · rintro ⟨files, hFiles, hPath⟩
    exact ⟨⟨files⟩, graph.mem_loops.mpr hFiles, hPath⟩

/-- Every module is entered once by the search. A loop through it is closed just if, when it is
entered, imports lead from it back to the trail, past none of the modules that were visited by
then; without bars in paths, a reported cycle mentions it just then. The first module of a
component that is visited is mentioned if the component has a cycle. -/
theorem mentioned_iff_leadsBack (steps : List ImportStep) {path : FilePath}
    (hKnown : path ∈ (after steps).paths) :
    (∃ entry, JustEntered (after steps).dependencies (after steps).paths path entry) ∧
      ∀ entry, JustEntered (after steps).dependencies (after steps).paths path entry →
        ((∃ loop ∈ (after steps).loops, path ∈ loop.files) ↔
          LeadsBack (after steps).dependencies entry path) ∧
        ((∀ known ∈ (after steps).paths, '|' ∉ known.text.toList) →
          ((∃ cycle ∈ (after steps).cycles, path ∈ cycle.files) ↔
            LeadsBack (after steps).dependencies entry path)) ∧
        ((∀ other ∈ entry.visited, (after steps).SameComponent path other → other = path) →
          TransGen (after steps).Imports path path →
          LeadsBack (after steps).dependencies entry path) := by
  have hStay : EdgesStay (after steps).dependencies (after steps).paths :=
    fun module _ => (after steps).dependencies_known module
  refine ⟨exists_justEntered hStay hKnown, fun entry hEntry => ?_⟩
  have hClosed : (∃ loop ∈ (after steps).loops, path ∈ loop.files) ↔
      LeadsBack (after steps).dependencies entry path :=
    (after steps).mem_loops_iff_mem_closed.trans (mem_closed_iff_leadsBack hStay hEntry)
  refine ⟨hClosed, fun hBar => ((after steps).mem_cycles_iff_mem_loops hBar).trans hClosed, ?_⟩
  intro hFirst hCyclic
  -- the module itself is on the trail, and around the cycle nothing else was visited
  have hTrail : path ∈ entry.trail := List.mem_of_getLast? (hEntry.since hStay).1.last_eq
  refine leadsBack_of_first hTrail (fun other hVisited hConnected => ?_)
    ((after steps).edges_of_imports hCyclic)
  exact hFirst other hVisited ((after steps).sameComponent_of_connected hKnown hConnected)

/-- Two cycles that share an import: from `a` to `b` and back, and from `a` over `c` to `b`. -/
def sharedImport : List ImportStep :=
  [.add ⟨"a.ts"⟩ [⟨"b"⟩, ⟨"c"⟩], .add ⟨"b.ts"⟩ [⟨"a"⟩], .add ⟨"c.ts"⟩ [⟨"b"⟩]]

theorem mentioned_iff_leadsBack_sharedImport :
    ∃ cycle ∈ (after sharedImport).cycles, ⟨"a.ts"⟩ ∈ cycle.files := by
  have hEntry : JustEntered (after sharedImport).dependencies (after sharedImport).paths ⟨"a.ts"⟩
      { frames := [⟨⟨"a.ts"⟩, [⟨"b.ts"⟩, ⟨"c.ts"⟩]⟩], active := [⟨"a.ts"⟩],
        visited := [⟨"a.ts"⟩], closed := [], roots := [⟨"b.ts"⟩, ⟨"c.ts"⟩] } :=
    ⟨0, by decide +kernel, by decide +kernel, by decide +kernel⟩
  have hForth : (after sharedImport).Imports ⟨"a.ts"⟩ ⟨"b.ts"⟩ := by decide +kernel
  have hBack : (after sharedImport).Imports ⟨"b.ts"⟩ ⟨"a.ts"⟩ := by decide +kernel
  obtain ⟨-, hMentioned, hFirst⟩ :=
    (mentioned_iff_leadsBack sharedImport (by decide +kernel)).2 _ hEntry
  refine (hMentioned (by decide +kernel)).mpr (hFirst ?_ (.head hForth (.single hBack)))
  intro other hVisited _
  exact List.mem_singleton.mp hVisited

/-- The cycle over `c` comes back through `b`, which the search has left by then. -/
theorem unmentioned_on_cycle :
    TransGen (after sharedImport).Imports ⟨"c.ts"⟩ ⟨"c.ts"⟩ ∧
      ∀ cycle ∈ (after sharedImport).cycles, ⟨"c.ts"⟩ ∉ cycle.files := by
  have hCycles : (after sharedImport).cycles = [⟨[⟨"a.ts"⟩, ⟨"b.ts"⟩]⟩] := by decide +kernel
  -- the way around the cycle, from `c` back to it
  have hFirst : (after sharedImport).Imports ⟨"c.ts"⟩ ⟨"b.ts"⟩ := by decide +kernel
  have hSecond : (after sharedImport).Imports ⟨"b.ts"⟩ ⟨"a.ts"⟩ := by decide +kernel
  have hThird : (after sharedImport).Imports ⟨"a.ts"⟩ ⟨"c.ts"⟩ := by decide +kernel
  refine ⟨.head hFirst (.head hSecond (.single hThird)), ?_⟩
  rw [hCycles]
  intro cycle hCycle
  obtain rfl := List.mem_singleton.mp hCycle
  decide

end ImportGraph

end DebtGauge
