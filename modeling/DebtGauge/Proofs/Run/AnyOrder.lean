import DebtGauge.Proofs.Run.Failures
import DebtGauge.Proofs.Run.TaskBoard

/-!
# Runs in any order

The operating system lists the entries of a directory in whatever order, and the tasks of a
parallel run finish in whatever order. Neither shows in the report: the walk's deliveries are
sorted, and different files have different paths; and no file fails, so that all results are
stored, each at the place of its file, before anything is made of them.

Main definitions and results:

* `RunEnds` — what a run can end with if the entries and the tasks come in any order;
* `runEnds_iff` — there is one such end, that of the run that takes one file after the other;
* `selectedFiles_of_perm` — the files of a run do not depend on the order of the deliveries.
-/

namespace DebtGauge

open FileOutcome FileSystem Relation

/-- What a run can end with, if a walk delivers its files and the tasks finish in any order. -/
inductive RunEnds (parser : Parser) (fs : FileSystem) (now : Instant) (options : RunOptions) :
    Except Failure Report → Prop
  | unresolvable (hRoot : options.path.absoluteFrom? fs.workingDirectory = none) :
    RunEnds parser fs now options (.error (.fileSystem .unresolvableRoot))
  | missing {root : FilePath}
    (hRoot : options.path.absoluteFrom? fs.workingDirectory = some root)
    (hMissing : fs.locate? root = none) :
    RunEnds parser fs now options (.error (.fileSystem (.missingPath root)))
  | pattern {root : FilePath} {found : Found} {failure : Failure}
    (hRoot : options.path.absoluteFrom? fs.workingDirectory = some root)
    (hFound : fs.locate? root = some found)
    (hPatterns : options.selection.patterns = .error failure) :
    RunEnds parser fs now options (.error failure)
  | finished {root : FilePath} {found : Found} {patterns : SelectionPatterns}
    {delivered : List FilePath} {board : TaskBoard Failure FileOutcome}
    (hRoot : options.path.absoluteFrom? fs.workingDirectory = some root)
    (hFound : fs.locate? root = some found)
    (hPatterns : options.selection.patterns = .ok patterns)
    (hDelivered : delivered.Perm (fs.deliveries root found))
    (hRun : ReflTransGen
      (TaskBoard.Step (ofFile parser fs) (selectedFiles root patterns delivered))
      (.start Failure FileOutcome (selectedFiles root patterns delivered)) board)
    (hFinished : board.IsFinished) :
    RunEnds parser fs now options
      (board.result >>= fun outcomes => options.report root outcomes now)

section Deliveries

variable {fs : FileSystem} {root : FilePath} {found : Found} {delivered : List FilePath}

/-- The files of a run are the same for every order of the deliveries, and they are strictly
increasing. -/
theorem selectedFiles_of_perm (hProper : fs.tree.IsProper) (hFound : fs.locate? root = some found)
    (hDelivered : delivered.Perm (fs.deliveries root found)) (patterns : SelectionPatterns) :
    selectedFiles root patterns delivered =
        selectedFiles root patterns (fs.deliveries root found) ∧
      (selectedFiles root patterns delivered).Pairwise
        fun a b => FilePath.comparePaths a b = .lt := by
  have hNodup : ((delivered.filter fun path => patterns.selects (root.seenFrom path)).map
      FilePath.components).Nodup := by
    -- another order of the deliveries does not make two of them the same
    have hAll := nodup_components_deliveries hProper hFound
    rw [← (hDelivered.map FilePath.components).nodup_iff] at hAll
    exact hAll.sublist (List.filter_sublist.map _)
  exact ⟨FilePath.sort_eq_of_perm (hDelivered.filter _) hNodup, FilePath.pairwise_sort hNodup⟩

end Deliveries

section Run

variable {parser : Parser} {fs : FileSystem} {options : RunOptions}

/-- Whatever the order, a run ends as the one that takes one file after the other. -/
theorem RunEnds.eq_analyzeProject (hProper : fs.tree.IsProper) (hFits : fs.FitsMachine parser)
    (hWorking : fs.workingDirectory.isAbsolute = true) {now : Instant}
    {result : Except Failure Report} (h : RunEnds parser fs now options result) :
    result = analyzeProject parser fs now options := by
  cases h with
  | unresolvable hRoot =>
    unfold analyzeProject
    rw [hRoot]
    rfl
  | missing hRoot hMissing =>
    exact (analyzeProject_eq_of_files_error now hRoot
      (sourceFiles_eq_error_iff.mpr (.inl ⟨hMissing, rfl⟩))).symm
  | pattern hRoot hFound hPatterns =>
    exact (analyzeProject_eq_of_files_error now hRoot
      (sourceFiles_eq_error_iff.mpr (.inr ⟨_, hFound, hPatterns⟩))).symm
  | @finished root found patterns delivered board hRoot hFound hPatterns hDelivered hRun hFinished =>
    -- the files are those of the sequential run, and each of them has an outcome
    have hFiles : fs.sourceFiles root options.selection =
        .ok (selectedFiles root patterns delivered) := by
      rw [sourceFiles_eq_of_locate? hFound, hPatterns,
        (selectedFiles_of_perm hProper hFound hDelivered patterns).1]
      rfl
    have hAbsolute := isAbsolute_of_mem_sourceFiles hWorking hRoot hFiles
    have hTasks : ∀ path ∈ selectedFiles root patterns delivered,
        ∃ outcome, ofFile parser fs path = .ok outcome :=
      fun path hPath => exists_ofFile hFits (FilePath.text_ne_of_isAbsolute (hAbsolute path hPath))
    rw [TaskBoard.result_eq_mapM hTasks hRun hFinished, analyzeProject_eq now hRoot, hFiles]
    rfl

/-- Some order always leads to an end. -/
theorem exists_runEnds (parser : Parser) (fs : FileSystem) (now : Instant)
    (options : RunOptions) : ∃ result, RunEnds parser fs now options result := by
  cases hRoot : options.path.absoluteFrom? fs.workingDirectory with
  | none => exact ⟨_, .unresolvable hRoot⟩
  | some root =>
    cases hFound : fs.locate? root with
    | none => exact ⟨_, .missing hRoot hFound⟩
    | some found =>
      cases hPatterns : options.selection.patterns with
      | error failure => exact ⟨_, .pattern hRoot hFound hPatterns⟩
      | ok patterns =>
        obtain ⟨board, hRun, hFinished⟩ := TaskBoard.exists_finished (ofFile parser fs)
          (selectedFiles root patterns (fs.deliveries root found))
        exact ⟨_, .finished hRoot hFound hPatterns (.refl _) hRun hFinished⟩

theorem report_later (options : RunOptions) (root : FilePath) (outcomes : List FileOutcome)
    (now later : Instant) : options.report root outcomes later =
      (options.report root outcomes now).map fun report => report.finishedAt later 0 := by
  rw [RunOptions.report_eq, RunOptions.report_eq]
  cases FileOutcome.metrics outcomes with
  | error failure => rfl
  | ok metrics =>
    show (ensureWeightSum _).map _ = ((ensureWeightSum _).map _).map _
    cases ensureWeightSum (rescaledWeights options.weights options.rules) <;> rfl

/-- A later clock shows in the times of the report, and nowhere else. -/
theorem analyzeProject_later (parser : Parser) (fs : FileSystem) (options : RunOptions)
    (now later : Instant) : analyzeProject parser fs later options =
      (analyzeProject parser fs now options).map fun report => report.finishedAt later 0 := by
  cases hRoot : options.path.absoluteFrom? fs.workingDirectory with
  | none =>
    unfold analyzeProject
    rw [hRoot]
    rfl
  | some root =>
    rw [analyzeProject_eq now hRoot, analyzeProject_eq later hRoot]
    -- nothing reads the clock before the report is made
    cases fs.sourceFiles root options.selection with
    | error failure => rfl
    | ok files =>
      show (files.mapM (ofFile parser fs) >>= _) = (files.mapM (ofFile parser fs) >>= _).map _
      cases files.mapM (ofFile parser fs) with
      | error failure => rfl
      | ok outcomes => exact report_later options root outcomes now later

end Run

/-! ## Main result -/

/-- Whatever the order in which the walk delivers its files and in which the tasks finish, a run
ends, and it ends as the one that takes the files one after the other; another clock changes the
times of the report alone. For every order of the deliveries, the files of the run are those that
are selected among them, and strictly increasing. The names in each directory are different, and
the machine's words count what it holds. -/
theorem runEnds_iff {parser : Parser} {fs : FileSystem} (hProper : fs.tree.IsProper)
    (hFits : fs.FitsMachine parser) (hWorking : fs.workingDirectory.isAbsolute = true) :
    (∀ (now : Instant) (options : RunOptions) (result : Except Failure Report),
      RunEnds parser fs now options result ↔ result = analyzeProject parser fs now options) ∧
    (∀ (now later : Instant) (options : RunOptions), analyzeProject parser fs later options =
      (analyzeProject parser fs now options).map fun report => report.finishedAt later 0) ∧
    ∀ (root : FilePath) (found : Found) (selection : FileSelection) (patterns : SelectionPatterns)
      (delivered : List FilePath), fs.locate? root = some found →
      selection.patterns = .ok patterns → delivered.Perm (fs.deliveries root found) →
      fs.sourceFiles root selection = .ok (selectedFiles root patterns delivered) ∧
        (selectedFiles root patterns delivered).Pairwise
          (fun a b => FilePath.comparePaths a b = .lt) ∧
        ∀ path, path ∈ selectedFiles root patterns delivered ↔
          path ∈ fs.deliveries root found ∧ patterns.selects (root.seenFrom path) = true := by
  refine ⟨fun now options result => ⟨?_, ?_⟩, ?_, ?_⟩
  · exact RunEnds.eq_analyzeProject hProper hFits hWorking
  · -- there is an end, and there is no other one
    rintro rfl
    obtain ⟨result, hEnds⟩ := exists_runEnds parser fs now options
    have hSame := hEnds.eq_analyzeProject hProper hFits hWorking
    rwa [← hSame]
  · exact fun now later options => analyzeProject_later parser fs options now later
  · intro root found selection patterns delivered hFound hPatterns hDelivered
    obtain ⟨hSame, hIncreasing⟩ := selectedFiles_of_perm hProper hFound hDelivered patterns
    refine ⟨?_, hIncreasing, fun path => ?_⟩
    · rw [sourceFiles_eq_of_locate? hFound, hPatterns, hSame]
      rfl
    · rw [mem_selectedFiles, hDelivered.mem_iff]

theorem isProper_mixedProject : mixedProject.tree.IsProper := by
  refine FileTree.isProper_directory (by decide) ?_
  intro entry hEntry
  simp only [List.mem_cons, List.not_mem_nil, or_false] at hEntry
  rcases hEntry with rfl | rfl | rfl <;>
    exact ⟨by unfold FilePath.Component.IsPart; decide, FileTree.isProper_file _⟩

/-- The run over three files has one end, also if they are delivered the other way round. -/
theorem runEnds_iff_mixedProject :
    (∀ result, RunEnds mixedParser mixedProject ⟨0, 0, 0⟩ mixedOptions result ↔
      result = analyzeProject mixedParser mixedProject ⟨0, 0, 0⟩ mixedOptions) ∧
    ∃ patterns, mixedOptions.selection.patterns = .ok patterns ∧
      (selectedFiles ⟨"/"⟩ patterns [⟨"/notes.txt"⟩, ⟨"/good.js"⟩, ⟨"/broken.js"⟩]).Pairwise
        fun a b => FilePath.comparePaths a b = .lt := by
  obtain ⟨hEnds, -, hWalk⟩ :=
    runEnds_iff isProper_mixedProject fitsMachine_mixedProject (by decide)
  have hFound : mixedProject.locate? ⟨"/"⟩ = some ⟨[], mixedProject.tree⟩ := rfl
  have hDelivered : mixedProject.deliveries ⟨"/"⟩ ⟨[], mixedProject.tree⟩ =
      [⟨"/broken.js"⟩, ⟨"/good.js"⟩, ⟨"/notes.txt"⟩] := by decide +kernel
  have hReversed : List.Perm [⟨"/notes.txt"⟩, ⟨"/good.js"⟩, ⟨"/broken.js"⟩]
      (mixedProject.deliveries ⟨"/"⟩ ⟨[], mixedProject.tree⟩) := by
    rw [hDelivered]
    decide
  obtain ⟨patterns, hPatterns⟩ : ∃ patterns, mixedOptions.selection.patterns = .ok patterns :=
    ⟨_, rfl⟩
  obtain ⟨-, hIncreasing, -⟩ := hWalk _ _ _ _ _ hFound hPatterns hReversed
  exact ⟨hEnds _ _, patterns, hPatterns, hIncreasing⟩

end DebtGauge
