import DebtGauge.Proofs.Run.Consistency
import DebtGauge.Proofs.Run.MetricStage

/-!
# What a run can fail with

Metrics are made all over a run, and each of them is checked: it must have a path and a finite
value. The paths of a run are absolute, for its root is, and its counts are counts of what a
machine holds. So nothing that stands in a file can end a run: it fails before it looks at the
files, because of its root or of a pattern, or behind them, because of the weights.

Main definitions and results:

* `RunFails` — the four ways in which a run can fail;
* `exists_metrics_of_run` — the files of a run have outcomes, and these have metrics;
* `run_fails_iff` — no content of files ends a run, and when a run fails.
-/

namespace DebtGauge

open FileOutcome

/-! ## Weights -/

theorem ensureWeightSum_eq_error {weights : List Float} {failure : Failure}
    (h : ensureWeightSum weights = .error failure) : ∃ sum, failure = .weightSum sum := by
  unfold ensureWeightSum at h
  dsimp only at h
  split_ifs at h
  cases h
  exact ⟨_, rfl⟩

/-! ## From files to metrics -/

section Files

variable {parser : Parser} {fs : FileSystem} {files : List FilePath}
  {outcomes : List FileOutcome}

theorem exists_of_mem_analyses {analysis : FileAnalysis}
    (hOutcomes : files.mapM (ofFile parser fs) = .ok outcomes)
    (h : analysis ∈ analyses outcomes) : ∃ path ∈ files,
      analyzeFile parser fs path = .ok analysis ∧ analysis.IsOf path := by
  obtain ⟨outcome, hMem, hAnalysis⟩ := List.mem_filterMap.mp h
  obtain ⟨path, hPath, hOutcome⟩ := exists_of_mem_of_mapM hOutcomes hMem
  cases outcome with
  | analyzed other =>
    cases hAnalysis
    exact ⟨path, hPath, isOf_of_ofFile hOutcome⟩
  | unsupported | failed _ => cases hAnalysis

theorem length_analyses_le (hOutcomes : files.mapM (ofFile parser fs) = .ok outcomes) :
    (analyses outcomes).length ≤ files.length := by
  rw [(forall₂_of_mapM hOutcomes).length_eq]
  exact List.length_filterMap_le _ _

theorem countable_of_mem_analyses (hFits : fs.FitsMachine parser)
    (hAbsolute : ∀ path ∈ files, path.isAbsolute = true)
    (hOutcomes : files.mapM (ofFile parser fs) = .ok outcomes) :
    ∀ analysis ∈ analyses outcomes, analysis.Countable := by
  intro analysis hMem
  obtain ⟨path, hPath, hAnalysis, hOf⟩ := exists_of_mem_analyses hOutcomes hMem
  obtain ⟨text, parsed, -, hParse, hAnalyze⟩ := exists_of_analyzeFile hAnalysis
  obtain ⟨-, -, language, hTree⟩ := ParsedFile.exists_of_parse hParse
  have hSize := (hFits.trees_fit language text _ hTree).size_lt
  refine ⟨?_, ?_, Nat.lt_of_le_of_lt (ParsedFile.length_blocks_le hAnalyze) hSize⟩
  · rw [hOf.path_eq]
    exact hAbsolute path hPath
  · rw [hOf.path_eq]
    exact hOf

/-- Files with absolute paths have outcomes. -/
theorem exists_outcomes (hFits : fs.FitsMachine parser)
    (hAbsolute : ∀ path ∈ files, path.isAbsolute = true) :
    ∃ outcomes, files.mapM (ofFile parser fs) = .ok outcomes :=
  exists_mapM fun path hPath =>
    exists_ofFile hFits (FilePath.text_ne_of_isAbsolute (hAbsolute path hPath))

end Files

/-! ## The whole run -/

section Run

variable {parser : Parser} {fs : FileSystem} {options : RunOptions} {root : FilePath}
  {files : List FilePath}

/-- The files of a run have absolute paths. -/
theorem isAbsolute_of_mem_sourceFiles (hWorking : fs.workingDirectory.isAbsolute = true)
    (hRoot : options.path.absoluteFrom? fs.workingDirectory = some root)
    (hFiles : fs.sourceFiles root options.selection = .ok files) :
    ∀ path ∈ files, path.isAbsolute = true := by
  intro path hPath
  obtain ⟨_, names, -, -, rfl⟩ := FileSystem.exists_below_of_mem_sourceFiles hFiles hPath
  exact FilePath.isAbsolute_below (FilePath.isAbsolute_absoluteFrom? hWorking hRoot)

/-- What concerns several files of a run at once does not fail. -/
theorem exists_metrics_of_run (hFits : fs.FitsMachine parser)
    (hWorking : fs.workingDirectory.isAbsolute = true)
    (hRoot : options.path.absoluteFrom? fs.workingDirectory = some root)
    (hFiles : fs.sourceFiles root options.selection = .ok files)
    {outcomes : List FileOutcome} (hOutcomes : files.mapM (ofFile parser fs) = .ok outcomes) :
    ∃ duplicates cycles,
      (FileAnalysis.detector (analyses outcomes)).metrics = .ok duplicates ∧
      (FileAnalysis.importGraph (analyses outcomes)).cycleMetrics = .ok cycles ∧
      FileOutcome.metrics outcomes =
        .ok ((analyses outcomes).flatMap (·.metrics) ++ duplicates ++ cycles) := by
  have hAbsolute := isAbsolute_of_mem_sourceFiles hWorking hRoot hFiles
  have hCountable := countable_of_mem_analyses hFits hAbsolute hOutcomes
  have hLength : (analyses outcomes).length < 2 ^ 64 := by
    have hSome := length_analyses_le hOutcomes
    have hAll := FileSystem.length_sourceFiles_le hFiles
    have hWord := hFits.files_lt
    omega
  obtain ⟨duplicates, hDuplicates⟩ := exists_duplicateMetrics hCountable hLength
  obtain ⟨cycles, hCycles⟩ := exists_cycleMetrics hCountable hLength
  refine ⟨duplicates, cycles, hDuplicates, hCycles, ?_⟩
  unfold FileOutcome.metrics
  dsimp only
  rw [hDuplicates, hCycles]
  rfl

/-- Once the files are known, only the weights are left to fail. -/
theorem analyzeProject_eq_of_files (hFits : fs.FitsMachine parser)
    (hWorking : fs.workingDirectory.isAbsolute = true) (now : Instant)
    (hRoot : options.path.absoluteFrom? fs.workingDirectory = some root)
    (hFiles : fs.sourceFiles root options.selection = .ok files) :
    ∃ outcomes metrics, files.mapM (ofFile parser fs) = .ok outcomes ∧
      FileOutcome.metrics outcomes = .ok metrics ∧
      analyzeProject parser fs now options =
        (ensureWeightSum (rescaledWeights options.weights options.rules)).map fun _ =>
          options.reportOn root outcomes now metrics := by
  obtain ⟨outcomes, hOutcomes⟩ :=
    exists_outcomes hFits (isAbsolute_of_mem_sourceFiles hWorking hRoot hFiles)
  obtain ⟨duplicates, cycles, -, -, hMetrics⟩ :=
    exists_metrics_of_run hFits hWorking hRoot hFiles hOutcomes
  refine ⟨outcomes, _, hOutcomes, hMetrics, ?_⟩
  rw [analyzeProject_eq now hRoot, hFiles]
  show files.mapM (ofFile parser fs) >>= _ = _
  rw [hOutcomes]
  show options.report root outcomes now = _
  rw [RunOptions.report_eq, hMetrics]
  rfl

/-- The ways in which a run can fail: its root has no absolute path, or there is nothing at its
root, or a pattern of its selection cannot be read, and then the first of these is at fault, or
the weights of its rules do not sum to one when they are rescaled. -/
inductive RunFails (fs : FileSystem) (options : RunOptions) : Failure → Prop
  | unresolvable (hRoot : options.path.absoluteFrom? fs.workingDirectory = none) :
    RunFails fs options (.fileSystem .unresolvableRoot)
  | missing {root : FilePath}
    (hRoot : options.path.absoluteFrom? fs.workingDirectory = some root)
    (hMissing : fs.locate? root = none) :
    RunFails fs options (.fileSystem (.missingPath root))
  | pattern {root : FilePath} {found : FileSystem.Found} {before after : List String}
    {text : String} {problem : Glob.Problem}
    (hRoot : options.path.absoluteFrom? fs.workingDirectory = some root)
    (hFound : fs.locate? root = some found)
    (hSplit : options.selection.included ++ options.selection.ignored = before ++ text :: after)
    (hBefore : ∀ earlier ∈ before, ∃ pattern, Glob.parse earlier = .ok pattern)
    (hText : Glob.parse text = .error problem) :
    RunFails fs options (.pattern problem)
  | weights {root : FilePath} {files : List FilePath} {sum : Float}
    (hRoot : options.path.absoluteFrom? fs.workingDirectory = some root)
    (hFiles : fs.sourceFiles root options.selection = .ok files)
    (hSum : ensureWeightSum (rescaledWeights options.weights options.rules) =
      .error (.weightSum sum)) :
    RunFails fs options (.weightSum sum)

theorem analyzeProject_eq_of_files_error {failure : Failure} (now : Instant)
    (hRoot : options.path.absoluteFrom? fs.workingDirectory = some root)
    (hFiles : fs.sourceFiles root options.selection = .error failure) :
    analyzeProject parser fs now options = .error failure := by
  rw [analyzeProject_eq now hRoot, hFiles]
  rfl

theorem RunFails.analyzeProject_eq_error (hFits : fs.FitsMachine parser)
    (hWorking : fs.workingDirectory.isAbsolute = true) (now : Instant) {failure : Failure}
    (h : RunFails fs options failure) : analyzeProject parser fs now options = .error failure := by
  cases h with
  | unresolvable hRoot =>
    unfold analyzeProject
    rw [hRoot]
    rfl
  | missing hRoot hMissing =>
    exact analyzeProject_eq_of_files_error now hRoot
      (FileSystem.sourceFiles_eq_error_iff.mpr (.inl ⟨hMissing, rfl⟩))
  | pattern hRoot hFound hSplit hBefore hText =>
    have hPatterns := FileSelection.patterns_eq_error_iff.mpr
      ⟨_, _, _, _, hSplit, hBefore, hText, rfl⟩
    exact analyzeProject_eq_of_files_error now hRoot
      (FileSystem.sourceFiles_eq_error_iff.mpr (.inr ⟨_, hFound, hPatterns⟩))
  | weights hRoot hFiles hSum =>
    obtain ⟨outcomes, metrics, -, -, hRun⟩ :=
      analyzeProject_eq_of_files hFits hWorking now hRoot hFiles
    rw [hRun, hSum]
    rfl

/-- Without files, the root or a pattern is at fault. -/
theorem runFails_of_files_error {failure : Failure}
    (hRoot : options.path.absoluteFrom? fs.workingDirectory = some root)
    (hFiles : fs.sourceFiles root options.selection = .error failure) :
    RunFails fs options failure := by
  rcases FileSystem.sourceFiles_eq_error_iff.mp hFiles with
    ⟨hMissing, rfl⟩ | ⟨found, hFound, hPatterns⟩
  · exact .missing hRoot hMissing
  · obtain ⟨before, text, after, problem, hSplit, hBefore, hText, rfl⟩ :=
      FileSelection.patterns_eq_error_iff.mp hPatterns
    exact .pattern hRoot hFound hSplit hBefore hText

theorem runFails_of_error (hFits : fs.FitsMachine parser)
    (hWorking : fs.workingDirectory.isAbsolute = true) {now : Instant} {failure : Failure}
    (h : analyzeProject parser fs now options = .error failure) : RunFails fs options failure := by
  cases hRoot : options.path.absoluteFrom? fs.workingDirectory with
  | none =>
    unfold analyzeProject at h
    rw [hRoot] at h
    cases h
    exact .unresolvable hRoot
  | some root =>
    cases hFiles : fs.sourceFiles root options.selection with
    | error other =>
      rw [analyzeProject_eq_of_files_error now hRoot hFiles] at h
      cases h
      exact runFails_of_files_error hRoot hFiles
    | ok files =>
      -- whatever stands in the files, only the weights can be at fault
      obtain ⟨outcomes, metrics, -, -, hRun⟩ :=
        analyzeProject_eq_of_files hFits hWorking now hRoot hFiles
      rw [hRun] at h
      cases hSum : ensureWeightSum (rescaledWeights options.weights options.rules) with
      | ok =>
        rw [hSum] at h
        cases h
      | error other =>
        rw [hSum] at h
        cases h
        obtain ⟨sum, rfl⟩ := ensureWeightSum_eq_error hSum
        exact .weights hRoot hFiles hSum

end Run

/-! ## Main result -/

/-- A parsed file with a path is analysed, whatever its tree and its text. A text can only fail
to be parsed, and this is a failure that a run goes on after, so that no file ends a run. A run
fails because of its root, of a pattern or of its weights, and just if one of these is at fault:
what it makes of duplicates and of import cycles and what its rules find does not fail. All this
holds on a machine whose words count the files, their bytes, and the nodes and rows of trees. -/
theorem run_fails_iff {parser : Parser} {fs : FileSystem} (hFits : fs.FitsMachine parser)
    (hWorking : fs.workingDirectory.isAbsolute = true) :
    (∀ file : ParsedFile, file.path.text ≠ "" → file.FitsMachine →
      ∃ analysis, file.analyze = .ok analysis) ∧
    (∀ (path : FilePath) (text : String) (failure : Failure), path.text ≠ "" →
      text.length < 2 ^ 64 → (ParsedFile.parse parser path text >>= ParsedFile.analyze) =
        .error failure → failure.isRecoverable = true) ∧
    (∀ path : FilePath, path.text ≠ "" → ∃ outcome, ofFile parser fs path = .ok outcome) ∧
    (∀ (now : Instant) (options : RunOptions) (failure : Failure),
      analyzeProject parser fs now options = .error failure ↔ RunFails fs options failure) ∧
    ∀ (options : RunOptions) (root : FilePath) (files : List FilePath),
      options.path.absoluteFrom? fs.workingDirectory = some root →
      fs.sourceFiles root options.selection = .ok files →
      ∃ outcomes duplicates cycles, files.mapM (ofFile parser fs) = .ok outcomes ∧
        (FileAnalysis.detector (analyses outcomes)).metrics = .ok duplicates ∧
        (FileAnalysis.importGraph (analyses outcomes)).cycleMetrics = .ok cycles ∧
        ∀ rule : Rule, ∃ findings, rule.evaluate
          ((analyses outcomes).flatMap (·.metrics) ++ duplicates ++ cycles) = .ok findings := by
  refine ⟨?_, ?_, ?_, ?_, ?_⟩
  · -- one file
    exact fun file => ParsedFile.exists_analyze
  · -- one text
    intro path text failure hPath hText hError
    exact ParsedFile.isRecoverable_of_analyze hPath hFits.trees_fit hText hError
  · -- one file of a run
    exact fun path => exists_ofFile hFits
  · -- the whole run
    intro now options failure
    exact ⟨runFails_of_error hFits hWorking, RunFails.analyzeProject_eq_error hFits hWorking now⟩
  · -- what concerns several files
    intro options root files hRoot hFiles
    obtain ⟨outcomes, hOutcomes⟩ :=
      exists_outcomes hFits (isAbsolute_of_mem_sourceFiles hWorking hRoot hFiles)
    obtain ⟨duplicates, cycles, hDuplicates, hCycles, -⟩ :=
      exists_metrics_of_run hFits hWorking hRoot hFiles hOutcomes
    exact ⟨outcomes, duplicates, cycles, hOutcomes, hDuplicates, hCycles,
      fun rule => ⟨_, rule.evaluate_eq _⟩⟩

/-- Finds no tree for an open bracket, and the same tree for any other text. -/
def mixedParser : Parser := fun _ text => if text = "(" then none else some sixParameters

theorem fitsMachine_mixedProject : mixedProject.FitsMachine mixedParser where
  trees_fit := by
    intro language text tree hTree
    unfold mixedParser at hTree
    split at hTree
    · cases hTree
    · obtain rfl := Option.some.inj hTree
      exact ⟨by decide +kernel, by decide +kernel⟩
  bytes_lt := by decide +kernel
  files_lt := by decide +kernel

/-- A script without a tree does not end the run, but a root that is not there does. -/
theorem run_fails_iff_mixedProject :
    (∃ outcome, ofFile mixedParser mixedProject ⟨"/broken.js"⟩ = .ok outcome) ∧
    analyzeProject mixedParser mixedProject ⟨0, 0, 0⟩ { mixedOptions with path := ⟨"sub"⟩ } =
      .error (.fileSystem (.missingPath ⟨"/sub"⟩)) := by
  obtain ⟨-, -, hFile, hRun, -⟩ := run_fails_iff fitsMachine_mixedProject (by decide)
  refine ⟨hFile ⟨"/broken.js"⟩ (by decide), (hRun _ _ _).mpr ?_⟩
  exact .missing (by decide +kernel) (by decide +kernel)

end DebtGauge
