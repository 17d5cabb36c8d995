import DebtGauge.Proofs.Double.Count
import DebtGauge.Proofs.ImportGraph.CycleKey
import DebtGauge.Proofs.ImportGraph.History
import DebtGauge.Proofs.Search.Coverage
import DebtGauge.Proofs.Sequence
import Mathlib.Data.List.Perm.Subperm

/-!
# Import cycles are found

The modules of a graph and the imports that were resolved to one of them form a relation.
The cycles that a graph reports are loops of this relation, and each component of it that
has a loop at all is hit by a report. So nothing is reported that is not a cycle, and no
component that has one is left out.

Main results:

* `cycles_sound` — a reported cycle is a loop over known modules, no two are over the same
  files, and each becomes a metric of its own.
* `cycles_complete` — nothing is reported just if there is no cycle, and a component with a
  cycle includes a reported one.
-/

namespace DebtGauge

open Relation Search

namespace ImportGraph

/-- Among the known modules, the first imports the second. -/
def Imports (graph : ImportGraph) (a b : FilePath) : Prop :=
  a ∈ graph.paths ∧ b ∈ graph.paths ∧ b ∈ graph.dependencies a

instance (graph : ImportGraph) (a b : FilePath) : Decidable (graph.Imports a b) :=
  inferInstanceAs (Decidable (_ ∧ _ ∧ _))

/-- Each of the two modules imports the other, directly or through others. -/
def SameComponent (graph : ImportGraph) (a b : FilePath) : Prop :=
  ReflTransGen graph.Imports a b ∧ ReflTransGen graph.Imports b a

variable (graph : ImportGraph)

/-! ## The relation and the search -/

/-- An import is resolved to a known module or not at all. -/
theorem resolve?_known {target path : FilePath} (h : graph.resolve? target = some path) :
    path ∈ graph.paths := by
  unfold resolve? at h
  have hNode : path ∈ graph.nodes := by simpa using List.find?_some h
  exact (graph.mem_nodes_iff path).mp hNode

theorem dependencies_known (a : FilePath) : ∀ b ∈ graph.dependencies a, b ∈ graph.paths := by
  intro b hb
  unfold dependencies at hb
  split at hb
  · obtain ⟨target, _, hResolved⟩ := List.mem_filterMap.mp hb
    exact graph.resolve?_known hResolved
  · simp at hb

theorem imports_iff {a b : FilePath} :
    graph.Imports a b ↔ a ∈ graph.paths ∧ Edge graph.dependencies a b :=
  ⟨fun h => ⟨h.1, h.2.2⟩, fun h => ⟨h.1, graph.dependencies_known a b h.2, h.2⟩⟩

/-- From a known module only known modules are reached. -/
theorem imports_of_edges {a b : FilePath} (hKnown : a ∈ graph.paths)
    (h : ReflTransGen (Edge graph.dependencies) a b) :
    b ∈ graph.paths ∧ ReflTransGen graph.Imports a b := by
  induction h with
  | refl => exact ⟨hKnown, .refl⟩
  | tail _ hEdge ih =>
    have hImports := graph.imports_iff.mpr ⟨ih.1, hEdge⟩
    exact ⟨hImports.2.1, ih.2.tail hImports⟩

theorem edges_of_imports {a b : FilePath} (h : TransGen graph.Imports a b) :
    TransGen (Edge graph.dependencies) a b :=
  TransGen.mono (fun _ _ hImports => hImports.2.2) _ _ h

theorem known_of_imports {a b : FilePath} (h : TransGen graph.Imports a b) :
    a ∈ graph.paths := by
  obtain ⟨c, hFirst, _⟩ := TransGen.head'_iff.mp h
  exact hFirst.1

theorem sameComponent_of_connected {a b : FilePath} (hKnown : a ∈ graph.paths)
    (h : Connected graph.dependencies a b) : graph.SameComponent a b := by
  obtain ⟨hb, hTo⟩ := graph.imports_of_edges hKnown h.1
  exact ⟨hTo, (graph.imports_of_edges hb h.2).2⟩

/-! ## What the search closes -/

theorem mem_loops {cycle : Cycle} :
    cycle ∈ graph.loops ↔ cycle.files ∈ (complete graph.dependencies graph.paths).closed := by
  simp only [loops, closedLoops, List.mem_map, List.mem_reverse]
  constructor
  · rintro ⟨files, hFiles, rfl⟩
    exact hFiles
  · exact fun hFiles => ⟨cycle.files, hFiles, rfl⟩

theorem mem_loops_of_mem_cycles {cycle : Cycle} (h : cycle ∈ graph.cycles) :
    cycle ∈ graph.loops :=
  (distinctBy_sublist [] graph.loops).subset h

theorem search_invariant :
    Invariant graph.dependencies graph.paths (complete graph.dependencies graph.paths) :=
  invariant_run (fun a _ => graph.dependencies_known a) _

/-- A reported cycle is a loop of imports. -/
theorem isLoop_of_mem_cycles {cycle : Cycle} (h : cycle ∈ graph.cycles) :
    IsLoop graph.dependencies cycle.files :=
  graph.search_invariant.closed_loops _
    (graph.mem_loops.mp (graph.mem_loops_of_mem_cycles h))

theorem files_known_of_mem_cycles {cycle : Cycle} (h : cycle ∈ graph.cycles) :
    ∀ file ∈ cycle.files, file ∈ graph.paths :=
  graph.search_invariant.closed_known _
    (graph.mem_loops.mp (graph.mem_loops_of_mem_cycles h))

/-- The component of a module on a cycle includes a loop that the search closes. -/
theorem exists_loop_connected {a : FilePath} (h : TransGen graph.Imports a a) :
    ∃ cycle ∈ graph.loops, ∀ file ∈ cycle.files, Connected graph.dependencies a file := by
  obtain ⟨files, hFiles, hAll⟩ := exists_closed_loop
    (fun a _ => graph.dependencies_known a) (graph.known_of_imports h) (graph.edges_of_imports h)
  exact ⟨⟨files⟩, graph.mem_loops.mpr hFiles, hAll⟩

/-! ## Completeness -/

/-- Nothing is reported just if no module imports itself through others. -/
theorem cycles_eq_nil_iff : graph.cycles = [] ↔ ∀ a, ¬ TransGen graph.Imports a a := by
  constructor
  · intro hNil a hCyclic
    obtain ⟨cycle, hLoop, _⟩ := graph.exists_loop_connected hCyclic
    obtain ⟨reported, hReported, _⟩ :=
      exists_mem_distinctBy hLoop (List.not_mem_nil (a := cycle.key))
    change reported ∈ graph.cycles at hReported
    rw [hNil] at hReported
    exact absurd hReported List.not_mem_nil
  · intro hAcyclic
    rw [List.eq_nil_iff_forall_not_mem]
    intro cycle hCycle
    have hLoop := graph.isLoop_of_mem_cycles hCycle
    -- a file of a reported cycle is reached from itself, along known modules all the way
    obtain ⟨file, hFile⟩ := List.exists_mem_of_ne_nil _ hLoop.ne_nil
    have hKnown := graph.files_known_of_mem_cycles hCycle file hFile
    obtain ⟨b, hFirst, hRest⟩ := TransGen.head'_iff.mp (transGen_of_isLoop hLoop hFile)
    have hImports := graph.imports_iff.mpr ⟨hKnown, hFirst⟩
    exact hAcyclic file
      (TransGen.head' hImports (graph.imports_of_edges hImports.2.1 hRest).2)

/-- Without bars in paths, the component of a module on a cycle includes a reported cycle:
the one that was kept for the key of the loop that the search has closed there. -/
theorem exists_cycle_sameComponent (hBar : ∀ path ∈ graph.paths, '|' ∉ path.text.toList)
    {a : FilePath} (h : TransGen graph.Imports a a) :
    ∃ cycle ∈ graph.cycles, ∀ file ∈ cycle.files, graph.SameComponent a file := by
  obtain ⟨loop, hLoop, hAll⟩ := graph.exists_loop_connected h
  obtain ⟨cycle, hCycle, hKey⟩ :=
    exists_mem_distinctBy hLoop (List.not_mem_nil (a := loop.key))
  -- the reported cycle may be another loop, but it is one over the same files
  have hLoopClosed := graph.mem_loops.mp hLoop
  have hSame : ∀ file, file ∈ cycle.files ↔ file ∈ loop.files := by
    refine Cycle.mem_files_iff_of_key_eq (graph.isLoop_of_mem_cycles hCycle).ne_nil
      (graph.search_invariant.closed_loops _ hLoopClosed).ne_nil ?_ ?_ hKey
    · exact fun file hFile => hBar file (graph.files_known_of_mem_cycles hCycle file hFile)
    · exact fun file hFile => hBar file
        (graph.search_invariant.closed_known _ hLoopClosed file hFile)
  refine ⟨cycle, hCycle, fun file hFile => ?_⟩
  exact graph.sameComponent_of_connected (graph.known_of_imports h)
    (hAll file ((hSame file).mp hFile))

/-! ## Soundness -/

/-- The files of a cycle are some of the modules, each at most once. -/
theorem length_files_le {cycle : Cycle} (h : cycle ∈ graph.cycles) :
    cycle.files.length ≤ graph.moduleCount := by
  have hNodup := (graph.isLoop_of_mem_cycles h).nodup
  exact (hNodup.subperm (graph.files_known_of_mem_cycles h)).length_le

/-- No two reported cycles are over the same files. -/
theorem pairwise_cycles :
    graph.cycles.Pairwise fun c d => ¬ ∀ file, file ∈ c.files ↔ file ∈ d.files := by
  refine (pairwise_distinctBy [] graph.loops).imp_of_mem ?_
  intro c d hc hd hKeys hSame
  -- loops do not repeat a file, so the same files are the same up to their order
  have hPerm : c.files.Perm d.files :=
    (List.perm_ext_iff_of_nodup (graph.isLoop_of_mem_cycles hc).nodup
      (graph.isLoop_of_mem_cycles hd).nodup).mpr hSame
  exact hKeys (Cycle.key_eq_of_perm hPerm)

/-- The metric of a cycle: its number of files, at its first file. -/
structure IsMetricOf (cycle : Cycle) (metric : Metric) : Prop where
  kind_eq : metric.kind = .circularDependency
  value_eq : metric.value = Float.ofNat cycle.files.length
  path_eq : cycle.files.head? = some metric.path
  context_eq : metric.context = some cycle.chain

/-- A reported cycle has a metric: its first file has a path, and a count of modules is a
finite number as long as it fits a machine word. -/
theorem exists_metric (hPaths : ∀ path ∈ graph.paths, path.text ≠ "")
    (hWord : graph.moduleCount < 2 ^ 64) {cycle : Cycle} (h : cycle ∈ graph.cycles) :
    ∃ metric, cycle.metric = .ok metric ∧ IsMetricOf cycle metric := by
  obtain ⟨first, rest, hFiles⟩ := List.exists_cons_of_ne_nil (graph.isLoop_of_mem_cycles h).ne_nil
  have hFirst : first.text ≠ "" := by
    refine hPaths first (graph.files_known_of_mem_cycles h first ?_)
    rw [hFiles]
    exact List.mem_cons_self ..
  have hFinite : (Float.ofNat cycle.files.length).isFinite = true :=
    Double.isFinite_ofNat (lt_of_le_of_lt (graph.length_files_le h) hWord)
  have hHead : cycle.files.head? = some first := by rw [hFiles, List.head?_cons]
  unfold Cycle.metric
  rw [hHead, Option.getD_some, Metric.create, dif_pos hFirst, dif_pos hFinite]
  exact ⟨_, rfl, rfl, rfl, hHead, rfl⟩

/-! ## Main results -/

/-- A cycle is reported just if there is one. Without bars in paths, each component with a
cycle includes all the files of a reported one. -/
theorem cycles_complete (steps : List ImportStep) :
    ((after steps).cycles = [] ↔ ∀ a, ¬ TransGen (after steps).Imports a a) ∧
      ((∀ path ∈ (after steps).paths, '|' ∉ path.text.toList) →
        ∀ a, TransGen (after steps).Imports a a →
          ∃ cycle ∈ (after steps).cycles, ∀ file ∈ cycle.files,
            (after steps).SameComponent a file) :=
  ⟨(after steps).cycles_eq_nil_iff,
    fun hBar _ hCyclic => (after steps).exists_cycle_sameComponent hBar hCyclic⟩

/-- Two modules that import each other, the first without its extension. -/
def mutualImports : List ImportStep :=
  [.add ⟨"a.ts"⟩ [⟨"b.ts"⟩], .add ⟨"b.ts"⟩ [⟨"./a"⟩, ⟨"lib"⟩]]

theorem cycles_complete_mutualImports : ∃ cycle ∈ (after mutualImports).cycles,
    ∀ file ∈ cycle.files, (after mutualImports).SameComponent ⟨"a.ts"⟩ file := by
  have hForth : (after mutualImports).Imports ⟨"a.ts"⟩ ⟨"b.ts"⟩ := by decide +kernel
  have hBack : (after mutualImports).Imports ⟨"b.ts"⟩ ⟨"a.ts"⟩ := by decide +kernel
  exact (cycles_complete mutualImports).2 (by decide +kernel) _ (.head hForth (.single hBack))

/-- A reported cycle is a loop over known modules, and no two are over the same files. Each
becomes one metric, in order, if no path is empty and a machine word counts the modules. -/
theorem cycles_sound (steps : List ImportStep) :
    (∀ cycle ∈ (after steps).cycles, IsLoop (after steps).dependencies cycle.files ∧
        ∀ file ∈ cycle.files, file ∈ (after steps).paths) ∧
      ((after steps).cycles.Pairwise fun c d => ¬ ∀ file, file ∈ c.files ↔ file ∈ d.files) ∧
      ((∀ path ∈ (after steps).paths, path.text ≠ "") → (after steps).moduleCount < 2 ^ 64 →
        ∃ metrics, (after steps).cycleMetrics = .ok metrics ∧
          List.Forall₂ IsMetricOf (after steps).cycles metrics) := by
  refine ⟨fun cycle hCycle => ⟨?_, ?_⟩, (after steps).pairwise_cycles, ?_⟩
  · exact (after steps).isLoop_of_mem_cycles hCycle
  · exact (after steps).files_known_of_mem_cycles hCycle
  · intro hPaths hWord
    exact exists_mapM_ok fun cycle hCycle => (after steps).exists_metric hPaths hWord hCycle

theorem cycles_sound_mutualImports :
    ∃ metrics, (after mutualImports).cycleMetrics = .ok metrics ∧
      List.Forall₂ IsMetricOf [⟨[⟨"a.ts"⟩, ⟨"b.ts"⟩]⟩] metrics := by
  have hCycles : (after mutualImports).cycles = [⟨[⟨"a.ts"⟩, ⟨"b.ts"⟩]⟩] := by decide +kernel
  rw [← hCycles]
  exact (cycles_sound mutualImports).2.2 (by decide +kernel) (by decide +kernel)

end ImportGraph

end DebtGauge
