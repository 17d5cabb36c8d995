import DebtGauge.Proofs.FilePath.Below
import DebtGauge.Proofs.FilePath.Order
import DebtGauge.Proofs.FileTree.Parts
import DebtGauge.Proofs.Sequence

/-!
# The files that a run looks at

A walk delivers files of the tree, each of them once and under a path of its own, and the run
looks at those that are selected, in the order of their paths. Without a place to start from
there are no files, and the first pattern that cannot be read is the one that a selection fails
with.

Main definitions and results:

* `FileSelection.patterns_eq_error_iff` — the failure to read the patterns of a selection;
* `FileSystem.deliveries`, `sourceFiles_eq` — the paths that a walk delivers, and those that are
  left of them;
* `nodup_components_deliveries` — in a proper tree they differ in their components;
* `sourceFiles_eq_error_iff` — when there are no files to look at;
* `exists_below_of_mem_sourceFiles`, `length_sourceFiles_le` — where the files of a run are, and
  how many there can be.
-/

namespace DebtGauge

/-! ## Patterns -/

/-- Reading the patterns of a selection fails as reading one list after the other does. -/
theorem FileSelection.patterns_eq_error_iff_mapM {selection : FileSelection} {failure : Failure} :
    selection.patterns = .error failure ↔ ∃ problem,
      (selection.included ++ selection.ignored).mapM Glob.parse = .error problem ∧
        failure = .pattern problem := by
  unfold patterns
  dsimp only
  rw [List.mapM_append]
  generalize selection.included.mapM Glob.parse = included
  generalize selection.ignored.mapM Glob.parse = ignored
  -- the failure of the first list hides that of the second one
  have hFail : ∀ problem : Glob.Problem, (Except.error (Failure.pattern problem) :
      Except Failure SelectionPatterns) = .error failure ↔ ∃ other,
        (Except.error problem : Except Glob.Problem (List Glob.Pattern)) = .error other ∧
          failure = .pattern other := by
    intro problem
    constructor
    · intro h
      cases h
      exact ⟨problem, rfl, rfl⟩
    · rintro ⟨_, h, rfl⟩
      cases h
      rfl
  cases included with
  | error problem => exact hFail problem
  | ok included =>
    cases ignored with
    | error problem => exact hFail problem
    | ok ignored =>
      constructor
      · intro h
        cases h
      · rintro ⟨_, h, -⟩
        cases h

/-- The patterns of a selection cannot be read just if one of them cannot, and then the first of
these is at fault. -/
theorem FileSelection.patterns_eq_error_iff {selection : FileSelection} {failure : Failure} :
    selection.patterns = .error failure ↔ ∃ before text after problem,
      selection.included ++ selection.ignored = before ++ text :: after ∧
      (∀ earlier ∈ before, ∃ pattern, Glob.parse earlier = .ok pattern) ∧
      Glob.parse text = .error problem ∧ failure = .pattern problem := by
  rw [patterns_eq_error_iff_mapM]
  constructor
  · rintro ⟨problem, hProblem, hFailure⟩
    obtain ⟨before, text, after, hSplit, hBefore, hText⟩ := mapM_eq_error_iff.mp hProblem
    exact ⟨before, text, after, problem, hSplit, hBefore, hText, hFailure⟩
  · rintro ⟨before, text, after, problem, hSplit, hBefore, hText, hFailure⟩
    exact ⟨problem, mapM_eq_error_iff.mpr ⟨before, text, after, hSplit, hBefore, hText⟩, hFailure⟩

namespace FileSystem

open FilePath (Component)

variable {fs : FileSystem} {root : FilePath} {found : Found} {selection : FileSelection}
  {files : List FilePath}

/-! ## Deliveries -/

/-- The paths that a walk delivers, in the order of the tree. -/
def deliveries (fs : FileSystem) (root : FilePath) (found : Found) : List FilePath :=
  (found.tree.walk (FileTree.outerLevels fs.tree found.names []) []).map root.below

/-- The delivered paths that are selected, in the order of paths. -/
def selectedFiles (root : FilePath) (patterns : SelectionPatterns) (delivered : List FilePath) :
    List FilePath :=
  FilePath.sort (delivered.filter fun path => patterns.selects (root.seenFrom path))

theorem sourceFiles_eq_of_locate? (hFound : fs.locate? root = some found) :
    fs.sourceFiles root selection = selection.patterns.map fun patterns =>
      selectedFiles root patterns (fs.deliveries root found) := by
  unfold sourceFiles
  rw [hFound]
  dsimp only
  cases selection.patterns <;> rfl

theorem sourceFiles_eq_of_missing (hMissing : fs.locate? root = none) :
    fs.sourceFiles root selection = .error (.fileSystem (.missingPath root)) := by
  unfold sourceFiles
  rw [hMissing]
  rfl

theorem exists_of_sourceFiles_ok (h : fs.sourceFiles root selection = .ok files) :
    ∃ found patterns, fs.locate? root = some found ∧ selection.patterns = .ok patterns ∧
      files = selectedFiles root patterns (fs.deliveries root found) := by
  cases hFound : fs.locate? root with
  | none =>
    rw [sourceFiles_eq_of_missing hFound] at h
    cases h
  | some found =>
    rw [sourceFiles_eq_of_locate? hFound] at h
    cases hPatterns : selection.patterns with
    | error failure =>
      rw [hPatterns] at h
      cases h
    | ok patterns =>
      rw [hPatterns] at h
      exact ⟨found, patterns, rfl, rfl, (Except.ok.inj h).symm⟩

/-- Files cannot be selected where there is nothing, or with a pattern that cannot be read. -/
theorem sourceFiles_eq_error_iff {failure : Failure} :
    fs.sourceFiles root selection = .error failure ↔
      (fs.locate? root = none ∧ failure = .fileSystem (.missingPath root)) ∨
        ∃ found, fs.locate? root = some found ∧ selection.patterns = .error failure := by
  cases hFound : fs.locate? root with
  | none =>
    rw [sourceFiles_eq_of_missing hFound]
    constructor
    · intro h
      cases h
      exact .inl ⟨rfl, rfl⟩
    · rintro (⟨-, rfl⟩ | ⟨_, h, -⟩)
      · rfl
      · cases h
  | some found =>
    rw [sourceFiles_eq_of_locate? hFound]
    constructor
    · intro h
      refine .inr ⟨found, rfl, ?_⟩
      cases hPatterns : selection.patterns with
      | error other =>
        rw [hPatterns] at h
        cases h
        rfl
      | ok patterns =>
        rw [hPatterns] at h
        cases h
    · rintro (⟨h, -⟩ | ⟨_, -, hPatterns⟩)
      · cases h
      · rw [hPatterns]
        rfl

theorem mem_selectedFiles {patterns : SelectionPatterns} {delivered : List FilePath}
    {path : FilePath} : path ∈ selectedFiles root patterns delivered ↔
      path ∈ delivered ∧ patterns.selects (root.seenFrom path) = true := by
  rw [selectedFiles, FilePath.mem_sort, List.mem_filter]

/-- A delivered path leads over the place of a file below the root. -/
theorem exists_below_of_mem_deliveries {path : FilePath} (h : path ∈ fs.deliveries root found) :
    ∃ names ∈ found.tree.places, path = root.below names := by
  obtain ⟨names, hNames, rfl⟩ := List.mem_map.mp h
  have hPlace := (FileTree.walk_sublist _ _ []).subset hNames
  simp only [List.nil_append, List.map_id'] at hPlace
  exact ⟨names, hPlace, rfl⟩

/-- The files of a run lie below its root. -/
theorem exists_below_of_mem_sourceFiles (h : fs.sourceFiles root selection = .ok files)
    {path : FilePath} (hPath : path ∈ files) :
    ∃ found names, fs.locate? root = some found ∧ names ∈ found.tree.places ∧
      path = root.below names := by
  obtain ⟨found, patterns, hFound, -, rfl⟩ := exists_of_sourceFiles_ok h
  obtain ⟨names, hNames, hBelow⟩ :=
    exists_below_of_mem_deliveries (mem_selectedFiles.mp hPath).1
  exact ⟨found, names, hFound, hNames, hBelow⟩

/-- A run looks at no more files than there are. -/
theorem length_sourceFiles_le (h : fs.sourceFiles root selection = .ok files) :
    files.length ≤ fs.tree.contents.length := by
  obtain ⟨found, patterns, hFound, -, rfl⟩ := exists_of_sourceFiles_ok h
  have hSorted := (FilePath.sort_perm ((fs.deliveries root found).filter fun path =>
    patterns.selects (root.seenFrom path))).length_eq
  have hSelected := List.length_filter_le (fun path => patterns.selects (root.seenFrom path))
    (fs.deliveries root found)
  have hWalk : (fs.deliveries root found).length ≤ found.tree.contents.length := by
    rw [deliveries, List.length_map]
    exact FileTree.length_walk_le ..
  have hPart := (FileTree.contents_sublist (within_of_locate? hFound)).length_le
  -- selected, delivered, below the root, in the whole tree
  rw [selectedFiles, hSorted]
  omega

/-- In a proper tree no two deliveries have the same components. -/
theorem nodup_components_deliveries (hProper : fs.tree.IsProper)
    (hFound : fs.locate? root = some found) :
    ((fs.deliveries root found).map FilePath.components).Nodup := by
  have hPart := hProper.within (within_of_locate? hFound)
  have hSublist := FileTree.walk_sublist found.tree (FileTree.outerLevels fs.tree found.names []) []
  simp only [List.nil_append, List.map_id'] at hSublist
  have hNodup := hSublist.nodup (FileTree.nodup_places hPart)
  rw [deliveries, List.map_map]
  -- different files lie at different places, and these can be told from the components
  refine hNodup.map_on fun names hNames others hOthers hSame => ?_
  have hParts := FileTree.isPart_of_mem_places hPart (hSublist.subset hNames)
  have hOtherParts := FileTree.isPart_of_mem_places hPart (hSublist.subset hOthers)
  exact FilePath.below_injective hParts hOtherParts hSame

end FileSystem

end DebtGauge
