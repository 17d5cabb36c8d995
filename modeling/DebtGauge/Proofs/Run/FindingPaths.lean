import DebtGauge.Proofs.Run.Failures

/-!
# Where findings point

A finding points at a file of its run, under the path that the walk has made, unless it is about
an import cycle: modules are known by the normal forms of their paths, and so are cycles. The
two differ if the path of the run has a `..`, or two slashes in front. For other paths, seen from
a working directory in normal form, the walk makes paths that are in normal form already.

Main results:

* `path_mem_of_mem_report` — where the findings of a report point;
* `normalize_of_mem_sourceFiles` — the roots below which walks make normal forms;
* `finding_outside_walk` — a finding under a path that the walk has not made.
-/

namespace DebtGauge

open FileOutcome FileSystem
open FilePath (Component)

section Paths

variable {parser : Parser} {fs : FileSystem} {options : RunOptions} {root : FilePath}
  {files : List FilePath}

/-! ## Metrics and findings -/

/-- A metric points at a file as the walk spells it, or is about a cycle and points at the normal
form of a file's path. -/
theorem path_of_mem_metrics {outcomes : List FileOutcome} {metrics : List Metric} {metric : Metric}
    (hOutcomes : files.mapM (ofFile parser fs) = .ok outcomes)
    (hMetrics : FileOutcome.metrics outcomes = .ok metrics) (h : metric ∈ metrics) :
    ∃ path ∈ files, (metric.kind ≠ .circularDependency ∧ metric.path = path) ∨
      (metric.kind = .circularDependency ∧ metric.path = path.normalize) := by
  obtain ⟨analysis, hAnalysis, hFrom⟩ := FileOutcome.exists_of_mem_metrics hMetrics h
  obtain ⟨path, hPath, -, hOf⟩ := exists_of_mem_analyses hOutcomes hAnalysis
  refine ⟨path, hPath, ?_⟩
  rcases hFrom with hOwn | ⟨hKind, block, hBlock, hSame⟩ | ⟨hKind, hSame⟩
  · -- a metric of the file itself
    obtain ⟨hMetricPath, -, hKind⟩ := hOf.metrics_of metric hOwn
    exact .inl ⟨hKind, hMetricPath⟩
  · -- a metric of one of its blocks
    refine .inl ⟨by rw [hKind]; decide, ?_⟩
    rw [hSame, hOf.blocks_path block hBlock]
  · -- a metric of a cycle through its module
    exact .inr ⟨hKind, by rw [hSame, hOf.path_eq]⟩

theorem path_of_mem_found {outcomes : List FileOutcome} {metrics : List Metric}
    {finding : Finding} (hOutcomes : files.mapM (ofFile parser fs) = .ok outcomes)
    (hMetrics : FileOutcome.metrics outcomes = .ok metrics)
    (h : finding ∈ options.found metrics) :
    ∃ path ∈ files, (finding.ruleId ≠ Rule.circularDependency.id ∧ finding.path = path) ∨
      (finding.ruleId = Rule.circularDependency.id ∧ finding.path = path.normalize) := by
  obtain ⟨rule, -, hFound⟩ := List.mem_flatMap.mp h
  obtain ⟨check, hCheck, metric, hMetric, hKind, rfl⟩ := Rule.exists_of_mem_found hFound
  obtain ⟨path, hPath, hSpelled⟩ := path_of_mem_metrics hOutcomes hMetrics hMetric
  -- the rule tells the kind of the metric, and the kind tells how the path is spelled
  have hRule := Rule.kind_eq_circularDependency_iff hCheck
  refine ⟨path, hPath, ?_⟩
  rcases hSpelled with ⟨hOther, hSame⟩ | ⟨hCycle, hSame⟩
  · exact .inl ⟨fun hId => hOther (hKind.trans (hRule.mpr (Rule.id_injective hId))), hSame⟩
  · exact .inr ⟨congrArg Rule.id (hRule.mp (hKind.symm.trans hCycle)), hSame⟩

/-! ## Walks in normal form -/

/-- A path that ends in a slash leads to directories alone. -/
theorem namesDirectory_join_empty (base : FilePath) :
    namesDirectory (base.join ⟨""⟩) = true := by
  have hEmpty : FilePath.isAbsolute ⟨""⟩ = false := by decide
  have hSlash : ∀ front : List Char, (Text.splitOn '/' (front ++ ['/'])).getLast? = some [] := by
    intro front
    rw [Text.splitOn_append_cons]
    simp [Text.splitOn]
  unfold namesDirectory FilePath.join
  rw [hEmpty, if_neg Bool.false_ne_true]
  split_ifs with hEnd
  · rw [String.append_empty]
    rcases List.eq_nil_or_concat' base.text.toList with hNil | ⟨front, last, hConcat⟩
    · rw [hNil]
      rfl
    · obtain rfl : last = '/' := by simpa [hConcat] using hEnd
      rw [hConcat, hSlash]
      rfl
  · have hText : (base.text ++ "/" ++ "").toList = base.text.toList ++ ['/'] := by simp
    rw [hText, hSlash]
    rfl

/-- What lies directly at a root that ends in a slash is no file. -/
theorem nil_notMem_places {found : Found} {base : FilePath}
    (hFound : fs.locate? (base.join ⟨""⟩) = some found) : [] ∉ found.tree.places := by
  have hDirectory : found.tree.isDirectory = true := by
    unfold locate? at hFound
    split at hFound
    · cases hFound
    · obtain ⟨-, hKept⟩ := Option.filter_eq_some_iff.mp hFound
      rwa [namesDirectory_join_empty, Bool.not_true, Bool.or_false] at hKept
  cases hTree : found.tree with
  | file content =>
    rw [hTree] at hDirectory
    cases hDirectory
  | directory entries =>
    rw [FileTree.places_directory]
    intro hMem
    obtain ⟨entry, -, hMem⟩ := List.mem_flatMap.mp hMem
    obtain ⟨names, -, hNil⟩ := List.mem_map.mp hMem
    cases hNil

/-- Below a root without `..` and without a root of its own kind, walks make normal forms. -/
theorem normalize_of_mem_sourceFiles (hProper : fs.tree.IsProper)
    (hWorking : fs.workingDirectory.isAbsolute = true)
    (hNormal : fs.workingDirectory.normalize = fs.workingDirectory)
    (hParent : .parent ∉ options.path.components) (hDouble : options.path.hasDoubleRoot = false)
    (hRoot : options.path.absoluteFrom? fs.workingDirectory = some root)
    (hFiles : fs.sourceFiles root options.selection = .ok files) :
    ∀ path ∈ files, path.normalize = path := by
  intro path hPath
  obtain ⟨found, names, hFound, hNames, rfl⟩ := exists_below_of_mem_sourceFiles hFiles hPath
  have hPart := hProper.within (within_of_locate? hFound)
  have hParts := FileTree.isPart_of_mem_places hPart hNames
  obtain ⟨above, hAbove, hSpelled⟩ :=
    FilePath.exists_pathOf_of_absoluteFrom? hWorking hNormal hParent hDouble hRoot
  -- in both cases the path consists of a root and names
  have hBelow : root.below names = pathOf (above ++ names) := by
    rcases hSpelled with rfl | rfl
    · exact FilePath.below_pathOf hAbove hParts
    · cases names with
      | nil => exact absurd hNames (nil_notMem_places hFound)
      | cons name rest =>
        -- the slash at the end of the root does not show behind the first name
        have hName := hParts name (List.mem_cons_self ..)
        rw [← FilePath.below_pathOf hAbove hParts]
        show ((_ : FilePath).join ⟨name⟩).below rest = ((_ : FilePath).join ⟨name⟩).below rest
        rw [FilePath.join_join_empty (FilePath.isAbsolute_name hName)]
  have hAll : ∀ name ∈ above ++ names, (Component.name name).IsPart := by
    simpa [or_imp, forall_and] using ⟨hAbove, hParts⟩
  rw [hBelow]
  exact FilePath.normalize_pathOf hAll

end Paths

/-! ## Main result -/

/-- A finding points at a file of the run, spelled as the walk spells it; one about an import
cycle points at the normal form of such a path. If the path of the run has no `..` and does not
start with just two slashes, then every finding points at a path of the walk as it stands, as
long as the names in each directory are different and the working directory is in normal form. -/
theorem path_mem_of_mem_report {parser : Parser} {fs : FileSystem} {now : Instant}
    {options : RunOptions} {report : Report}
    (h : analyzeProject parser fs now options = .ok report) :
    ∃ root files, options.path.absoluteFrom? fs.workingDirectory = some root ∧
      fs.sourceFiles root options.selection = .ok files ∧
      (∀ finding ∈ report.findings, ∃ path ∈ files,
        (finding.ruleId ≠ Rule.circularDependency.id ∧ finding.path = path) ∨
        (finding.ruleId = Rule.circularDependency.id ∧ finding.path = path.normalize)) ∧
      (fs.tree.IsProper → fs.workingDirectory.isAbsolute = true →
        fs.workingDirectory.normalize = fs.workingDirectory →
        .parent ∉ options.path.components → options.path.hasDoubleRoot = false →
        ∀ finding ∈ report.findings, finding.path ∈ files) := by
  obtain ⟨root, files, outcomes, metrics, hRoot, hFiles, hOutcomes, hMetrics, rfl⟩ :=
    exists_of_analyzeProject_ok h
  have hSpelled : ∀ finding ∈ options.found metrics, ∃ path ∈ files,
      (finding.ruleId ≠ Rule.circularDependency.id ∧ finding.path = path) ∨
      (finding.ruleId = Rule.circularDependency.id ∧ finding.path = path.normalize) :=
    fun finding hFinding => path_of_mem_found hOutcomes hMetrics hFinding
  refine ⟨root, files, hRoot, hFiles, hSpelled, ?_⟩
  intro hProper hWorking hNormal hParent hDouble finding hFinding
  obtain ⟨path, hPath, hCases⟩ := hSpelled finding hFinding
  -- the normal form of a path of the walk is the path itself
  have hSame := normalize_of_mem_sourceFiles hProper hWorking hNormal hParent hDouble hRoot
    hFiles path hPath
  rcases hCases with ⟨-, hFindingPath⟩ | ⟨-, hFindingPath⟩
  · rwa [hFindingPath]
  · rwa [hFindingPath, hSame]

/-- The tree of the script `import './a.ts';`. -/
def selfImportTree : SyntaxTree :=
  scriptNode "program" none 0 16 [scriptNode "import_statement" none 0 16
    [scriptNode "string" (some "source") 7 15 []]]

/-- Finds this tree in every text. -/
def selfImportParser : Parser := fun _ _ => some selfImportTree

/-- A script that imports itself, beside an empty directory. -/
def selfImportProject : FileSystem where
  tree := .directory [("a.ts", .file (Text.toBytes "import './a.ts';")), ("sub", .directory [])]
  workingDirectory := ⟨"/"⟩

/-- Looks for import cycles below a path. -/
def cyclesBelow (path : String) : RunOptions where
  path := ⟨path⟩
  selection := ⟨["**"], []⟩
  weights := .standard
  rules := [.circularDependency]
  parallel := false
  quiet := true

theorem isProper_selfImportProject : selfImportProject.tree.IsProper := by
  refine FileTree.isProper_directory (by decide) ?_
  intro entry hEntry
  simp only [List.mem_cons, List.not_mem_nil, or_false] at hEntry
  rcases hEntry with rfl | rfl
  · exact ⟨by unfold Component.IsPart; decide, FileTree.isProper_file _⟩
  · exact ⟨by unfold Component.IsPart; decide,
      FileTree.isProper_directory List.nodup_nil fun entry hEntry => nomatch hEntry⟩

/-- Seen from the path `./`, the cycle is found where the walk has been. -/
theorem path_mem_of_mem_report_selfImport :
    ∃ report files, analyzeProject selfImportParser selfImportProject ⟨0, 0, 0⟩
        (cyclesBelow "./") = .ok report ∧
      selfImportProject.sourceFiles ⟨"/"⟩ ⟨["**"], []⟩ = .ok files ∧
      report.findings.length = 1 ∧ ∀ finding ∈ report.findings, finding.path ∈ files := by
  have hCount : (analyzeProject selfImportParser selfImportProject ⟨0, 0, 0⟩
      (cyclesBelow "./")).toOption.map (·.findings.length) = some 1 := by decide +kernel
  obtain ⟨report, hReport, hLength⟩ := exists_of_toOption_map hCount
  obtain ⟨root, files, hRoot, hFiles, -, hPaths⟩ := path_mem_of_mem_report hReport
  have hSlash : (cyclesBelow "./").path.absoluteFrom? selfImportProject.workingDirectory =
      some ⟨"/"⟩ := by decide +kernel
  obtain rfl : ⟨"/"⟩ = root := Option.some.inj (hSlash.symm.trans hRoot)
  exact ⟨report, files, hReport, hFiles, hLength,
    hPaths isProper_selfImportProject (by decide) (by decide +kernel) (by decide +kernel)
      (by decide +kernel)⟩

/-- The walk below `sub/..` delivers `/sub/../a.ts`, and the cycle is found at `/a.ts`. -/
theorem finding_outside_walk :
    ∃ report finding root files, analyzeProject selfImportParser selfImportProject ⟨0, 0, 0⟩
        (cyclesBelow "sub/..") = .ok report ∧ finding ∈ report.findings ∧
      (cyclesBelow "sub/..").path.absoluteFrom? selfImportProject.workingDirectory = some root ∧
      selfImportProject.sourceFiles root (cyclesBelow "sub/..").selection = .ok files ∧
      finding.path ∉ files := by
  have hPaths : (analyzeProject selfImportParser selfImportProject ⟨0, 0, 0⟩
      (cyclesBelow "sub/..")).toOption.map (·.findings.map (·.path)) = some [⟨"/a.ts"⟩] := by
    decide +kernel
  have hRoot : (cyclesBelow "sub/..").path.absoluteFrom? selfImportProject.workingDirectory =
      some ⟨"/sub/.."⟩ := by decide +kernel
  have hFiles : selfImportProject.sourceFiles ⟨"/sub/.."⟩ (cyclesBelow "sub/..").selection =
      .ok [⟨"/sub/../a.ts"⟩] := by
    have hSort : FilePath.sort [⟨"/sub/../a.ts"⟩] = [⟨"/sub/../a.ts"⟩] :=
      List.mergeSort_singleton _
    have hFound : selfImportProject.sourceFiles ⟨"/sub/.."⟩ (cyclesBelow "sub/..").selection =
        .ok (FilePath.sort [⟨"/sub/../a.ts"⟩]) := rfl
    rw [hFound, hSort]
  obtain ⟨report, hReport, hAll⟩ := exists_of_toOption_map hPaths
  obtain ⟨finding, hFinding, hPath⟩ : ∃ finding ∈ report.findings, finding.path = ⟨"/a.ts"⟩ := by
    have hMem : (⟨"/a.ts"⟩ : FilePath) ∈ report.findings.map (·.path) := by
      rw [hAll]
      exact List.mem_singleton_self _
    exact List.mem_map.mp hMem
  refine ⟨report, finding, _, _, hReport, hFinding, hRoot, hFiles, ?_⟩
  rw [hPath]
  decide

end DebtGauge
