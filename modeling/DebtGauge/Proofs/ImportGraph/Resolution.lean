import DebtGauge.Proofs.FilePath.Above
import DebtGauge.Proofs.ImportGraph.History

/-!
# What an import refers to

An import names a module, or a file without its ending, or a directory with an index file. The
known module that comes first in this order is meant, with the endings tried in their order. But
for an import without a file name, such as `/` or `..`, nothing is tried but the path itself, so
that an index file of this directory is never found.

Main definitions and results:

* `endings`, `standsFor` — what may be left out of an import, and the paths it may stand for;
* `cons_candidates_eq` — these are the paths that are tried for an import with a file name;
* `resolve?_eq_firstKnown_iff` — when an import resolves to the first of them that is known;
* `index_unresolved_without_fileName` — an index file that is not found.
-/

namespace DebtGauge

namespace ImportGraph

/-- What may be missing at the end of an import, in the order in which it is tried. -/
def endings : List String := [".ts", ".tsx", ".mts", ".cts", ".js", ".jsx", ".mjs", ".cjs"]

/-- The index files of a directory. -/
def indexFiles (directory : FilePath) : List FilePath :=
  endings.map fun ending => directory.join ⟨"index" ++ ending⟩

/-- The paths that an import may stand for: it names a module, or a file whose ending is left
out, or a directory with an index file. -/
def standsFor (target : FilePath) : List FilePath :=
  target :: (if target.fileName?.isSome then endings.map fun ending => ⟨target.text ++ ending⟩
    else []) ++ indexFiles target

/-- The first of some paths that is known. -/
def firstKnown? (graph : ImportGraph) (paths : List FilePath) : Option FilePath :=
  paths.find? (· ∈ graph.paths)

variable {target : FilePath}

/-- An ending is appended to the text of a file in normal form. -/
theorem withFileName_append (hNormal : target.normalize = target) {name : String}
    (hName : target.fileName? = some name) (ending : String) :
    target.withFileName (name ++ ending) = ⟨target.text ++ ending⟩ := by
  obtain ⟨above, hAbove, hJoin⟩ := FilePath.exists_join_of_normal hNormal hName
  have hPart : (FilePath.Component.name name).IsPart := by
    obtain ⟨init, hInit⟩ := FilePath.exists_parts_of_fileName? hName
    have hMem : FilePath.Component.name name ∈ target.parts := by simp [hInit]
    exact FilePath.isPart_of_mem_parts hMem
  -- with the ending or without, the name is joined to the path above in the same way
  have hLonger : FilePath.isAbsolute ⟨name ++ ending⟩ = false := by
    have hRelative := FilePath.isAbsolute_name hPart
    have hNonempty : name.toList ≠ [] := by
      intro hNil
      have hPiece := hPart.1
      rw [FilePath.Component.text, hNil] at hPiece
      cases hPiece
    obtain ⟨c, cs, hCons⟩ := List.exists_cons_of_ne_nil hNonempty
    unfold FilePath.isAbsolute at hRelative ⊢
    rw [hCons] at hRelative
    rw [String.toList_append, hCons]
    exact hRelative
  unfold FilePath.withFileName
  rw [hName, hAbove]
  refine FilePath.eq_of_toList ?_
  show ((above.join ⟨name ++ ending⟩).text).toList = _
  rw [← hJoin, FilePath.text_join hLonger, String.toList_append, String.toList_append,
    FilePath.text_join (FilePath.isAbsolute_name hPart), ← List.append_assoc]

/-- The paths that are tried for an import with a file name are those that it may stand for. -/
theorem cons_candidates_eq (hNormal : target.normalize = target)
    (hName : target.fileName?.isSome) : target :: candidates target = standsFor target := by
  have hEndings : endings = extensions.map ("." ++ ·) := by decide
  obtain ⟨name, hFile⟩ := Option.isSome_iff_exists.mp hName
  have hInterpolated (extension : String) :
      s!"{name}.{extension}" = name ++ ("." ++ extension) := String.append_assoc ..
  unfold candidates standsFor indexFiles
  rw [hFile]
  simp only [Option.isSome_some, if_true, hEndings, List.map_map]
  congr 2
  refine List.map_congr_left fun extension _ => ?_
  rw [hInterpolated]
  exact withFileName_append hNormal hFile ("." ++ extension)

theorem candidates_eq_nil (hName : target.fileName? = none) : candidates target = [] := by
  rw [candidates, hName]

/-- An import with a file name resolves to the first known path that it may stand for. One
without a file name resolves to itself, if it is known, and to nothing else. -/
theorem resolve?_eq_of_normal (graph : ImportGraph) (hNormal : target.normalize = target) :
    graph.resolve? target =
      graph.firstKnown? (if target.fileName?.isSome then standsFor target else [target]) := by
  unfold resolve?
  -- a path is known by the map just if the list has it
  simp only [mem_nodes_iff]
  cases hName : target.fileName? with
  | none =>
    rw [candidates_eq_nil hName]
    rfl
  | some name =>
    rw [cons_candidates_eq hNormal (by rw [hName]; rfl)]
    rfl

theorem firstKnown?_cons (graph : ImportGraph) (path : FilePath) (paths : List FilePath) :
    graph.firstKnown? (path :: paths) =
      if path ∈ graph.paths then some path else graph.firstKnown? paths := by
  unfold firstKnown?
  rw [List.find?_cons]
  by_cases hKnown : path ∈ graph.paths <;> simp [hKnown]

theorem firstKnown?_eq_none_iff (graph : ImportGraph) (paths : List FilePath) :
    graph.firstKnown? paths = none ↔ ∀ path ∈ paths, path ∉ graph.paths := by
  simp [firstKnown?]

/-! ## Main result -/

/-- An import with a file name resolves to the first known path that it may stand for. In normal
form, the root and the chains of `..`, the empty path among them, are all that have none. One of
these resolves to the first known path as well just if it is known itself, or if no index file
of its directory is known. -/
theorem resolve?_eq_firstKnown_iff (graph : ImportGraph) (hNormal : target.normalize = target) :
    (graph.resolve? target = graph.firstKnown? (standsFor target) ↔
      target.fileName?.isSome ∨ target ∈ graph.paths ∨
        ∀ index ∈ indexFiles target, index ∉ graph.paths) ∧
    (target.fileName? = none ↔ target = ⟨"/"⟩ ∨
      ∃ count, target = .ofComponents (List.replicate count .parent)) ∧
    (target.fileName? = none →
      graph.resolve? target = if target ∈ graph.paths then some target else none) := by
  have hResolved := graph.resolve?_eq_of_normal hNormal
  refine ⟨?_, FilePath.fileName?_eq_none_iff hNormal, ?_⟩
  · cases hName : target.fileName? with
    | some name =>
      rw [hName] at hResolved
      exact iff_of_true hResolved (.inl rfl)
    | none =>
      -- the path itself is tried, and no index file
      have hStands : standsFor target = target :: indexFiles target := by
        rw [standsFor, hName]
        rfl
      rw [hName] at hResolved
      rw [hResolved, hStands, firstKnown?_cons, ← firstKnown?_eq_none_iff]
      by_cases hKnown : target ∈ graph.paths
      · simp [firstKnown?_cons, hKnown]
      · simp [hKnown, firstKnown?, eq_comm]
  · intro hName
    rw [hName] at hResolved
    rw [hResolved]
    exact firstKnown?_cons graph target []

/-- A module in a directory below another module, whose import names the directory above. -/
def importsAbove : List ImportStep :=
  [.add ⟨"index.ts"⟩ [⟨"lib/a"⟩], .add ⟨"lib/a.tsx"⟩ [⟨"lib/.."⟩]]

theorem resolve?_eq_firstKnown_iff_importsAbove :
    (⟨"lib/a"⟩ : FilePath).normalize = ⟨"lib/a"⟩ ∧
      (after importsAbove).resolve? ⟨"lib/a"⟩ = some ⟨"lib/a.tsx"⟩ := by
  have hNormal : (⟨"lib/a"⟩ : FilePath).normalize = ⟨"lib/a"⟩ := by decide +kernel
  have hFirst : (after importsAbove).firstKnown? (standsFor ⟨"lib/a"⟩) = some ⟨"lib/a.tsx"⟩ := by
    decide +kernel
  refine ⟨hNormal, ?_⟩
  rw [← hFirst]
  exact (resolve?_eq_firstKnown_iff (after importsAbove) hNormal).1.mpr (.inl (by decide +kernel))

/-- From the directory below, the directory above is the empty path, whose index file is known
but not found. -/
theorem index_unresolved_without_fileName :
    (after importsAbove).dependencies ⟨"lib/a.tsx"⟩ = [] ∧
      (after importsAbove).firstKnown? (standsFor (FilePath.normalize ⟨"lib/.."⟩)) =
        some ⟨"index.ts"⟩ := by
  decide +kernel

end ImportGraph

end DebtGauge
