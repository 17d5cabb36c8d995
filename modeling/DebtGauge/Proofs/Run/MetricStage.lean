import DebtGauge.Proofs.Duplication.Duplicates
import DebtGauge.Proofs.ImportGraph.Cycles
import DebtGauge.Proofs.Run.FileStage

/-!
# The metrics of a run

The blocks of all files are compared and their imports are followed once the files are analysed.
The metrics of duplicates carry the paths of files as they stand, and those of import cycles the
normal forms of paths. Neither the one nor the other can fail if the files have absolute paths
and machine words count them.

Main definitions and results:

* `FileAnalysis.blocks_detector`, `exists_of_mem_paths_importGraph` — what is compared, and what
  is followed;
* `FileOutcome.exists_of_mem_metrics` — where a metric of a run comes from;
* `FileAnalysis.Countable`, `exists_duplicateMetrics`, `exists_cycleMetrics` — analyses whose
  metrics do not fail.
-/

namespace DebtGauge

/-! ## The detector and the graph of a run -/

namespace FileAnalysis

variable {analyses : List FileAnalysis}

theorem blocks_detector (analyses : List FileAnalysis) :
    (detector analyses).blocks =
      analyses.flatMap fun analysis => analysis.blocks.filter (·.isComparable) := by
  have hFold : ∀ start : DuplicateDetector,
      (analyses.foldl (fun detector analysis => detector.add analysis.blocks) start).blocks =
        start.blocks ++ analyses.flatMap fun analysis =>
          analysis.blocks.filter (·.isComparable) := by
    -- blocks are added behind those that are there, so the detector may start with any
    induction analyses with
    | nil => exact fun start => (List.append_nil _).symm
    | cons analysis rest ih =>
      intro start
      rw [List.foldl_cons, ih, List.flatMap_cons, ← List.append_assoc]
      rfl
  exact hFold .empty

theorem exists_of_mem_blocks {block : CodeBlock} (h : block ∈ (detector analyses).blocks) :
    ∃ analysis ∈ analyses, block ∈ analysis.blocks := by
  rw [blocks_detector] at h
  obtain ⟨analysis, hAnalysis, hBlock⟩ := List.mem_flatMap.mp h
  exact ⟨analysis, hAnalysis, List.mem_of_mem_filter hBlock⟩

/-- No more blocks are compared than a bound on those of one file allows. -/
theorem count_detector_le {bound : Nat} (h : ∀ analysis ∈ analyses, analysis.blocks.length ≤ bound) :
    (detector analyses).count ≤ analyses.length * bound := by
  have hTally : (detector analyses).count =
      tally (fun analysis => (analysis.blocks.filter (·.isComparable)).length) analyses := by
    rw [DuplicateDetector.count, blocks_detector]
    clear h
    induction analyses with
    | nil => rfl
    | cons analysis rest ih => rw [List.flatMap_cons, List.length_append, ih, tally]
  rw [hTally]
  refine tally_le_mul fun analysis hAnalysis => ?_
  exact Nat.le_trans (List.length_filter_le _ _) (h analysis hAnalysis)

theorem mem_paths_foldl_add {start : ImportGraph} {path : FilePath}
    (h : path ∈ (analyses.foldl (fun graph analysis => graph.add analysis.path analysis.imports)
      start).paths) :
    path ∈ start.paths ∨ ∃ analysis ∈ analyses, path = analysis.path.normalize := by
  induction analyses generalizing start with
  | nil => exact .inl h
  | cons analysis rest ih =>
    rcases ih h with hAdded | ⟨other, hOther, rfl⟩
    · -- the path was there, or it is the one of the file
      rw [ImportGraph.paths_add] at hAdded
      split at hAdded
      · exact .inl hAdded
      · rcases List.mem_append.mp hAdded with hOld | hNew
        · exact .inl hOld
        · exact .inr ⟨analysis, List.mem_cons_self .., List.mem_singleton.mp hNew⟩
    · exact .inr ⟨other, List.mem_cons_of_mem _ hOther, rfl⟩

theorem length_paths_foldl_add_le (analyses : List FileAnalysis) (start : ImportGraph) :
    (analyses.foldl (fun graph analysis => graph.add analysis.path analysis.imports)
      start).paths.length ≤ start.paths.length + analyses.length := by
  induction analyses generalizing start with
  | nil => exact Nat.le_refl _
  | cons analysis rest ih =>
    have hRest := ih (start.add analysis.path analysis.imports)
    have hOne : (start.add analysis.path analysis.imports).paths.length ≤
        start.paths.length + 1 := by
      rw [ImportGraph.paths_add]
      split
      · exact Nat.le_succ _
      · rw [List.length_append, List.length_singleton]
    rw [List.foldl_cons, List.length_cons]
    omega

theorem exists_of_mem_paths_importGraph {path : FilePath}
    (h : path ∈ (importGraph analyses).paths) :
    ∃ analysis ∈ analyses, path = analysis.path.normalize :=
  (mem_paths_foldl_add h).resolve_left List.not_mem_nil

theorem moduleCount_importGraph_le (analyses : List FileAnalysis) :
    (importGraph analyses).moduleCount ≤ analyses.length := by
  have hLength := length_paths_foldl_add_le analyses .empty
  have hEmpty : ImportGraph.empty.paths.length = 0 := rfl
  rw [hEmpty, Nat.zero_add] at hLength
  exact hLength

end FileAnalysis

/-! ## Where metrics come from -/

theorem DuplicateDetector.exists_of_mem_metrics {detector : DuplicateDetector}
    {metrics : List Metric} {metric : Metric} (h : detector.metrics = .ok metrics)
    (hMetric : metric ∈ metrics) :
    metric.kind = .codeDuplication ∧ ∃ block ∈ detector.blocks, metric.path = block.path := by
  obtain ⟨group, hGroup, hCreate⟩ := exists_of_mem_of_mapM h hMetric
  obtain ⟨i, -, hLeader, -⟩ := exists_of_mem_of_forall₂ forall₂_groups hGroup
  obtain ⟨hPath, hKind⟩ := Metric.path_of_create hCreate
  exact ⟨hKind, group.leader, List.mem_of_getElem? hLeader, hPath⟩

theorem ImportGraph.exists_of_mem_cycleMetrics {graph : ImportGraph} {metrics : List Metric}
    {metric : Metric} (h : graph.cycleMetrics = .ok metrics) (hMetric : metric ∈ metrics) :
    metric.kind = .circularDependency ∧ metric.path ∈ graph.paths := by
  obtain ⟨cycle, hCycle, hCreate⟩ := exists_of_mem_of_mapM h hMetric
  obtain ⟨hPath, hKind⟩ := Metric.path_of_create hCreate
  refine ⟨hKind, ?_⟩
  -- a cycle is never empty, and its first file is a module
  obtain ⟨first, rest, hFiles⟩ :=
    List.exists_cons_of_ne_nil (graph.isLoop_of_mem_cycles hCycle).ne_nil
  rw [hPath, hFiles, List.head?_cons, Option.getD_some]
  refine graph.files_known_of_mem_cycles hCycle first ?_
  rw [hFiles]
  exact List.mem_cons_self ..

namespace FileOutcome

variable {outcomes : List FileOutcome}

/-- A metric of a run belongs to a file as it stands, to a block of a file, or to a module, which
is known by its normal path. -/
theorem exists_of_mem_metrics {metrics : List Metric} {metric : Metric}
    (h : FileOutcome.metrics outcomes = .ok metrics) (hMetric : metric ∈ metrics) :
    ∃ analysis ∈ analyses outcomes, metric ∈ analysis.metrics ∨
      (metric.kind = .codeDuplication ∧ ∃ block ∈ analysis.blocks, metric.path = block.path) ∨
      (metric.kind = .circularDependency ∧ metric.path = analysis.path.normalize) := by
  obtain ⟨duplicates, hDuplicates, h⟩ := exists_of_bind_ok h
  obtain ⟨cycles, hCycles, h⟩ := exists_of_bind_ok h
  cases h
  rcases List.mem_append.mp hMetric with hMetric | hMetric
  · rcases List.mem_append.mp hMetric with hMetric | hMetric
    · obtain ⟨analysis, hAnalysis, hMetric⟩ := List.mem_flatMap.mp hMetric
      exact ⟨analysis, hAnalysis, .inl hMetric⟩
    · obtain ⟨hKind, block, hBlock, hPath⟩ :=
        DuplicateDetector.exists_of_mem_metrics hDuplicates hMetric
      obtain ⟨analysis, hAnalysis, hOwn⟩ := FileAnalysis.exists_of_mem_blocks hBlock
      exact ⟨analysis, hAnalysis, .inr (.inl ⟨hKind, block, hOwn, hPath⟩)⟩
  · obtain ⟨hKind, hPath⟩ := ImportGraph.exists_of_mem_cycleMetrics hCycles hMetric
    obtain ⟨analysis, hAnalysis, hNormal⟩ := FileAnalysis.exists_of_mem_paths_importGraph hPath
    exact ⟨analysis, hAnalysis, .inr (.inr ⟨hKind, hNormal⟩)⟩

end FileOutcome

/-! ## Metrics that do not fail -/

/-- An analysis of a file with an absolute path, whose blocks a machine word counts. -/
structure FileAnalysis.Countable (analysis : FileAnalysis) : Prop where
  path_absolute : analysis.path.isAbsolute = true
  isOf : analysis.IsOf analysis.path
  blocks_lt : analysis.blocks.length < 2 ^ 64

section Countable

variable {analyses : List FileAnalysis}

theorem exists_duplicateMetrics (hAll : ∀ analysis ∈ analyses, analysis.Countable)
    (hLength : analyses.length < 2 ^ 64) :
    ∃ metrics, (FileAnalysis.detector analyses).metrics = .ok metrics := by
  have hPaths : ∀ block ∈ (FileAnalysis.detector analyses).blocks, block.path.text ≠ "" := by
    intro block hBlock
    obtain ⟨analysis, hAnalysis, hOwn⟩ := FileAnalysis.exists_of_mem_blocks hBlock
    rw [(hAll analysis hAnalysis).isOf.blocks_path block hOwn]
    exact FilePath.text_ne_of_isAbsolute (hAll analysis hAnalysis).path_absolute
  have hCount : (FileAnalysis.detector analyses).count < 2 ^ 128 := by
    have hEach : ∀ analysis ∈ analyses, analysis.blocks.length ≤ 2 ^ 64 :=
      fun analysis hAnalysis => (hAll analysis hAnalysis).blocks_lt.le
    calc _ ≤ analyses.length * 2 ^ 64 := FileAnalysis.count_detector_le hEach
      _ < 2 ^ 64 * 2 ^ 64 := Nat.mul_lt_mul_of_pos_right hLength (Nat.two_pow_pos 64)
      _ = 2 ^ 128 := (Nat.pow_add 2 64 64).symm
  obtain ⟨metrics, hMetrics, -⟩ := DuplicateDetector.exists_metrics_of_lt hPaths hCount
  exact ⟨metrics, hMetrics⟩

theorem exists_cycleMetrics (hAll : ∀ analysis ∈ analyses, analysis.Countable)
    (hLength : analyses.length < 2 ^ 64) :
    ∃ metrics, (FileAnalysis.importGraph analyses).cycleMetrics = .ok metrics := by
  have hPaths : ∀ path ∈ (FileAnalysis.importGraph analyses).paths, path.text ≠ "" := by
    intro path hPath
    -- the normal form of an absolute path is absolute, and so it is not empty
    obtain ⟨analysis, hAnalysis, rfl⟩ := FileAnalysis.exists_of_mem_paths_importGraph hPath
    exact FilePath.text_ne_of_isAbsolute
      (FilePath.isAbsolute_normalize (hAll analysis hAnalysis).path_absolute)
  have hModules : (FileAnalysis.importGraph analyses).moduleCount < 2 ^ 64 :=
    Nat.lt_of_le_of_lt (FileAnalysis.moduleCount_importGraph_le analyses) hLength
  refine exists_mapM fun cycle hCycle => ?_
  obtain ⟨metric, hMetric, -⟩ :=
    (FileAnalysis.importGraph analyses).exists_metric hPaths hModules hCycle
  exact ⟨metric, hMetric⟩

end Countable

end DebtGauge
