import DebtGauge.Proofs.FileTree.Location
import DebtGauge.Settings.Search

/-!
# The nearest settings file

The settings of a project are to be those of the nearest settings file, or the standard ones if
that file is improper. The search takes the nearest file that is proper instead: where an improper
file has a proper one above it, it is passed over. And from a file that is given by its bare name
the search does not get beyond the working directory. In all other cases the two agree.

Main definitions:

* `Settings.filesAbove` — the settings files in the directory of a root and above it;
* `Settings.nearest` — what the nearest of these files says;
* `Settings.IsMisled` — the projects whose settings are not those of the nearest file.

Main results:

* `Settings.searchedFiles_eq`, `searchedFiles_of_bare` — the files that are searched;
* `Settings.search_eq_nearest_iff` — which settings apply to a root, and when these are the nearest.
-/

namespace DebtGauge.Settings

open FileSystem (Found pathOf)

variable {fs : FileSystem} {root : FilePath} {found : Found} {names : List String}
  {files : List ByteArray}

/-! ## Settings files -/

/-- The settings in the bytes of a file, if these are a text that holds proper settings. -/
def ofBytes? (bytes : ByteArray) : Option Settings :=
  (Text.ofBytes? bytes).bind fun text => (parse text).toOption

/-- The settings file in the directory that names lead to. -/
def fileIn? (tree : FileTree) (names : List String) : Option ByteArray :=
  (tree.descendant? (names ++ [fileName])).bind FileTree.content?

/-- The place of the directory that an entry is or, if it is a file, lies in. -/
def directoryOf (found : Found) : List String :=
  if found.tree.isDirectory then found.names else found.names.dropLast

/-- The place of a directory and the places above it, the nearest first, as many as are searched. -/
def directoriesUp (names : List String) : List (List String) :=
  names.inits.reverse.take searchDepth

/-- The settings files in the directory of a root and above it, the nearest first. A root that
leads nowhere has only the directories that its text names. -/
def filesAbove (fs : FileSystem) (root : FilePath) : List ByteArray :=
  match fs.locate? root with
  | some found => (directoriesUp (directoryOf found)).filterMap (fileIn? fs.tree)
  | none => (root.ancestors searchDepth).filterMap fun directory =>
      fs.readBytes? (directory.join ⟨fileName⟩)

/-- What the nearest file says: the standard settings if it is improper or there is none. -/
def nearest (files : List ByteArray) : Settings :=
  (files.head?.bind ofBytes?).getD standard

/-- What the nearest proper file says, and the standard settings if there is none. -/
def nearestProper (files : List ByteArray) : Settings :=
  (files.findSome? ofBytes?).getD standard

/-- A file that is given by its name alone, without the directory that it is in. -/
def isBareName (fs : FileSystem) (root : FilePath) : Bool :=
  fs.isFile root && decide (root.parent? = some ⟨""⟩)

theorem isBareName_iff :
    isBareName fs root = true ↔ fs.isFile root = true ∧ root.parent? = some ⟨""⟩ := by
  rw [isBareName, Bool.and_eq_true, decide_eq_true_eq]

theorem isPart_fileName : (FilePath.Component.name fileName).IsPart := by
  unfold FilePath.Component.IsPart
  decide

/-! ## The files that are searched -/

/-- The settings files that a search comes across, the nearest first. -/
def searchedFiles (fs : FileSystem) (root : FilePath) : List ByteArray :=
  (searchPlaces fs root).filterMap fs.readBytes?

theorem toOption_load (fs : FileSystem) (path : FilePath) :
    (load fs path).toOption = (fs.readBytes? path).bind ofBytes? := by
  unfold load FileSystem.readText?
  cases fs.readBytes? path with
  | none => rfl
  | some bytes =>
    rw [Option.bind_some, Option.bind_some, ofBytes?]
    cases Text.ofBytes? bytes with
    | none => rfl
    | some text =>
      show ((parse text).mapError _).toOption = (parse text).toOption
      cases parse text <;> rfl

/-- A search takes the nearest proper file of those that it comes across. -/
theorem search_eq_nearestProper (fs : FileSystem) (root : FilePath) :
    search fs root = nearestProper (searchedFiles fs root) := by
  have hEach (path : FilePath) : (if fs.isFile path then (load fs path).toOption else none) =
      (fs.readBytes? path).bind ofBytes? := by
    rw [toOption_load, FileSystem.isFile]
    cases fs.readBytes? path <;> rfl
  unfold search nearestProper searchedFiles
  simp only [hEach]
  rw [← List.head?_filterMap, ← List.head?_filterMap, List.filterMap_filterMap]

/-- Behind the path of a place, the settings file is the one at this place. -/
theorem readBytes?_fileName (fs : FileSystem)
    (h : ∀ name ∈ names, (FilePath.Component.name name).IsPart) :
    fs.readBytes? ((pathOf names).join ⟨fileName⟩) = fileIn? fs.tree names :=
  FileSystem.readBytes?_join_pathOf fs h isPart_fileName

/-- From the path of a place, all files at or above the place are searched. -/
theorem filterMap_ancestors_pathOf (fs : FileSystem)
    (h : ∀ name ∈ names, (FilePath.Component.name name).IsPart) :
    ((pathOf names).ancestors searchDepth).filterMap
      (fun directory => fs.readBytes? (directory.join ⟨fileName⟩)) =
      (directoriesUp names).filterMap (fileIn? fs.tree) := by
  rw [FileSystem.ancestors_pathOf h, List.filterMap_map]
  refine List.filterMap_congr fun place hPlace => ?_
  -- the names of a place above are among those of the place
  have hPrefix : place <+: names :=
    (List.mem_inits _ _).mp (List.mem_reverse.mp (List.mem_of_mem_take hPlace))
  exact readBytes?_fileName fs fun name hName => h name (hPrefix.subset hName)

theorem searchedFiles_eq_filterMap (fs : FileSystem) (root : FilePath) :
    searchedFiles fs root = ((startDirectory fs root).ancestors searchDepth).filterMap
      fun directory => fs.readBytes? (directory.join ⟨fileName⟩) := by
  rw [searchedFiles, searchPlaces, List.filterMap_map]
  rfl

/-- The search starts at the place of the directory of the root, however that is spelled. -/
theorem startDirectory_of_locate? (h : fs.locate? root = some found)
    (hBare : isBareName fs root = false) :
    startDirectory fs root = pathOf (directoryOf found) := by
  have hKind := FileSystem.isFile_of_locate? h
  unfold startDirectory directoryOf
  cases hDirectory : found.tree.isDirectory with
  | true =>
    rw [hKind, hDirectory]
    simp [FileSystem.canonical?, h]
  | false =>
    -- the path above the file is spelled as the root is, but it leads to the place of its directory
    obtain ⟨above, directory, name, hAbove, hNames, -, hLocate⟩ :=
      FileSystem.exists_directory_of_file h hDirectory
    have hText : above.text ≠ "" := by
      intro hText
      have hEmpty : above = ⟨""⟩ := congrArg FilePath.mk hText
      rw [isBareName, hKind, hDirectory, hAbove, hEmpty] at hBare
      simp at hBare
    rw [hKind, hDirectory, hAbove, hNames, List.dropLast_concat]
    simp [FileSystem.canonical?, hLocate hText]

theorem isPart_of_mem_directoryOf (h : fs.locate? root = some found) :
    ∀ name ∈ directoryOf found, (FilePath.Component.name name).IsPart := by
  intro name hName
  refine FileSystem.isPart_of_mem_names (FileSystem.follow?_of_locate? h).1 name ?_
  unfold directoryOf at hName
  split at hName
  · exact hName
  · exact List.mem_of_mem_dropLast hName

/-- Unless the root is a file that is given by its bare name, all files at or above it are
searched. -/
theorem searchedFiles_eq (hBare : isBareName fs root = false) :
    searchedFiles fs root = filesAbove fs root := by
  rw [searchedFiles_eq_filterMap, filesAbove]
  cases h : fs.locate? root with
  | some found =>
    rw [startDirectory_of_locate? h hBare]
    exact filterMap_ancestors_pathOf fs (isPart_of_mem_directoryOf h)
  | none =>
    have hStart : startDirectory fs root = root := by
      simp [startDirectory, FileSystem.isFile, FileSystem.readBytes?, FileSystem.canonical?, h]
    rw [hStart]

/-- From a file that is given by its bare name, only the working directory is searched. -/
theorem searchedFiles_of_bare (hBare : isBareName fs root = true) :
    searchedFiles fs root = (fs.readBytes? ⟨fileName⟩).toList := by
  obtain ⟨hFile, hParent⟩ := isBareName_iff.mp hBare
  have hStart : startDirectory fs root = ⟨""⟩ := by
    rw [startDirectory, hFile, hParent]
    rfl
  have hUp : FilePath.ancestors ⟨""⟩ searchDepth = [⟨""⟩] := by decide
  have hJoin : FilePath.join ⟨""⟩ ⟨fileName⟩ = ⟨fileName⟩ := by decide
  rw [searchedFiles_eq_filterMap, hStart, hUp]
  cases h : fs.readBytes? ⟨fileName⟩ <;> simp [hJoin, h]

theorem directoriesUp_eq_cons (names : List String) :
    ∃ farther, directoriesUp names = names :: farther := by
  rcases List.eq_nil_or_concat' names with rfl | ⟨init, name, rfl⟩
  · exact ⟨[], rfl⟩
  · refine ⟨init.inits.reverse.take 9, ?_⟩
    simp [directoriesUp, searchDepth, List.inits_append]

/-- A file that is given by its bare name lies in the working directory, so a settings file there
is the nearest one. -/
theorem filesAbove_of_bare (hBare : isBareName fs root = true) :
    ∃ farther, filesAbove fs root = (fs.readBytes? ⟨fileName⟩).toList ++ farther := by
  obtain ⟨hFile, hParent⟩ := isBareName_iff.mp hBare
  cases h : fs.locate? root with
  | none => simp [FileSystem.isFile, FileSystem.readBytes?, h] at hFile
  | some found =>
    have hKind : found.tree.isDirectory = false := by
      simpa [hFile] using FileSystem.isFile_of_locate? h
    obtain ⟨above, directory, name, hAbove, hNames, hFollow, -⟩ :=
      FileSystem.exists_directory_of_file h hKind
    obtain rfl : above = ⟨""⟩ := Option.some.inj (hAbove.symm.trans hParent)
    have hPlace : directoryOf found = directory.names := by
      rw [directoryOf, hKind, hNames]
      exact List.dropLast_concat
    have hOwn : fileIn? fs.tree directory.names = fs.readBytes? ⟨fileName⟩ := by
      rw [show fs.readBytes? ⟨fileName⟩ = fs.readBytes? (FilePath.join ⟨""⟩ ⟨fileName⟩) from rfl,
        FileSystem.readBytes?_join fs ⟨""⟩ isPart_fileName, hFollow, fileIn?,
        FileTree.descendant?_concat, FileSystem.descendant?_of_follow? hFollow]
      rfl
    obtain ⟨farther, hUp⟩ := directoriesUp_eq_cons directory.names
    refine ⟨farther.filterMap (fileIn? fs.tree), ?_⟩
    rw [filesAbove, h]
    dsimp only
    rw [hPlace, hUp, List.filterMap_cons, hOwn]
    cases fs.readBytes? ⟨fileName⟩ <;> rfl

/-! ## Where the search is misled -/

/-- The projects to which other settings apply than those of the nearest file: an improper file is
passed over for a proper one above it, or a search from a bare name stops short of a file above
the working directory. Settings that are the standard ones cannot mislead. -/
inductive IsMisled (fs : FileSystem) (root : FilePath) : Prop
  | passesOver {improper : ByteArray} {farther : List ByteArray} {settings : Settings} :
    isBareName fs root = false → filesAbove fs root = improper :: farther →
      ofBytes? improper = none → farther.findSome? ofBytes? = some settings →
      settings ≠ standard → IsMisled fs root
  | stopsShort {first : ByteArray} {farther : List ByteArray} {settings : Settings} :
    isBareName fs root = true → fs.readBytes? ⟨fileName⟩ = none →
      filesAbove fs root = first :: farther → ofBytes? first = some settings →
      settings ≠ standard → IsMisled fs root

/-- The nearest proper file says something else than the nearest file if and only if the nearest
file is improper and another one above it does not give the standard settings. -/
theorem nearestProper_ne_nearest_iff : nearestProper files ≠ nearest files ↔
    ∃ improper farther settings, files = improper :: farther ∧ ofBytes? improper = none ∧
      farther.findSome? ofBytes? = some settings ∧ settings ≠ standard := by
  cases files with
  | nil => simp [nearestProper, nearest]
  | cons first farther =>
    rw [nearestProper, nearest, List.findSome?_cons, List.head?_cons, Option.bind_some]
    cases hFirst : ofBytes? first with
    | some settings => simp [hFirst]
    | none =>
      cases hRest : farther.findSome? ofBytes? with
      | none => simp [hRest]
      | some settings => simp [hFirst, hRest]

theorem nearest_ne_standard_iff : nearest files ≠ standard ↔
    ∃ first farther settings, files = first :: farther ∧ ofBytes? first = some settings ∧
      settings ≠ standard := by
  cases files with
  | nil => simp [nearest]
  | cons first farther =>
    rw [nearest, List.head?_cons, Option.bind_some]
    cases hFirst : ofBytes? first <;> simp [hFirst]

/-- A search that comes across all files is misled where it passes over one. -/
theorem isMisled_iff (hBare : isBareName fs root = false) : IsMisled fs root ↔
    nearestProper (filesAbove fs root) ≠ nearest (filesAbove fs root) := by
  rw [nearestProper_ne_nearest_iff]
  constructor
  · rintro (⟨-, hFiles, hImproper, hFarther, hNe⟩ | ⟨hOther, -⟩)
    · exact ⟨_, _, _, hFiles, hImproper, hFarther, hNe⟩
    · rw [hBare] at hOther
      cases hOther
  · rintro ⟨improper, farther, settings, hFiles, hImproper, hFarther, hNe⟩
    exact .passesOver hBare hFiles hImproper hFarther hNe

/-- A search that does not get beyond the working directory is misled where there is no file in
it, but one above it. -/
theorem isMisled_iff_of_bare (hBare : isBareName fs root = true) : IsMisled fs root ↔
    nearest (fs.readBytes? ⟨fileName⟩).toList ≠ nearest (filesAbove fs root) := by
  obtain ⟨farther, hFiles⟩ := filesAbove_of_bare hBare
  cases hOwn : fs.readBytes? ⟨fileName⟩ with
  | some own =>
    -- the file in the working directory is the nearest one
    rw [hFiles, hOwn]
    refine iff_of_false ?_ fun hNe => hNe rfl
    rintro (⟨hOther, -⟩ | ⟨-, hNone, -⟩)
    · rw [hBare] at hOther
      cases hOther
    · rw [hOwn] at hNone
      cases hNone
  | none =>
    show _ ↔ standard ≠ nearest (filesAbove fs root)
    rw [ne_comm, nearest_ne_standard_iff]
    constructor
    · rintro (⟨hOther, -⟩ | ⟨-, -, hFirst, hProper, hNe⟩)
      · rw [hBare] at hOther
        cases hOther
      · exact ⟨_, _, _, hFirst, hProper, hNe⟩
    · rintro ⟨first, rest, settings, hFirst, hProper, hNe⟩
      exact .stopsShort hBare hOwn hFirst hProper hNe

/-- Of one file at most, the nearest one is the nearest proper one, or the standard settings
apply. -/
theorem nearestProper_toList (file : Option ByteArray) :
    nearestProper file.toList = nearest file.toList := by
  cases file with
  | none => rfl
  | some file => simp [nearestProper, nearest]

/-- The settings that apply to a root are those of the nearest proper file at or above it or, if
the root is a file that is given by its bare name, those of the file in the working directory.
They are what the nearest file says if and only if the search is not misled. -/
theorem search_eq_nearest_iff (fs : FileSystem) (root : FilePath) :
    search fs root = (if isBareName fs root then nearest (fs.readBytes? ⟨fileName⟩).toList
      else nearestProper (filesAbove fs root)) ∧
    (search fs root = nearest (filesAbove fs root) ↔ ¬ IsMisled fs root) := by
  rw [search_eq_nearestProper]
  cases hBare : isBareName fs root with
  | false =>
    rw [searchedFiles_eq hBare, isMisled_iff hBare, not_not]
    exact ⟨rfl, Iff.rfl⟩
  | true =>
    rw [searchedFiles_of_bare hBare, isMisled_iff_of_bare hBare, not_not, nearestProper_toList]
    exact ⟨rfl, Iff.rfl⟩

/-! ## Two misled searches -/

/-- A settings file that has its project worked on file after file. -/
def sequentialFile : FileTree :=
  .file (Text.toBytes "[analysis]\nparallel = false\n")

/-- A settings file with a weight that is refused. -/
def improperFile : FileTree :=
  .file (Text.toBytes "[weights]\nsize = -1\n")

/-- A project with an improper settings file in a directory, and a proper one above it. -/
def shadowedProject : FileSystem where
  tree := .directory [("p", .directory [(fileName, sequentialFile),
    ("a", .directory [(fileName, improperFile)])])]
  workingDirectory := ⟨"/p"⟩

/-- The improper file is the nearest one, so the standard settings should apply; but the search
passes over it. -/
theorem improper_file_passed_over :
    search shadowedProject ⟨"a"⟩ ≠ nearest (filesAbove shadowedProject ⟨"a"⟩) := by
  intro h
  have hParallel := congrArg Settings.parallel h
  have hSearch : (search shadowedProject ⟨"a"⟩).parallel = false := by decide +kernel
  have hNearest : (nearest (filesAbove shadowedProject ⟨"a"⟩)).parallel = true := by decide +kernel
  rw [hSearch, hNearest] at hParallel
  cases hParallel

/-- A file in a directory, and a settings file above it. -/
def nestedProject : FileSystem where
  tree := .directory [("p", .directory [(fileName, sequentialFile),
    ("a", .directory [("b.ts", .file ByteArray.empty)])])]
  workingDirectory := ⟨"/p/a"⟩

-- the dot tells where the file lies; from the bare name the settings file is not found
example : (search nestedProject ⟨"./b.ts"⟩).parallel = false ∧
    (search nestedProject ⟨"b.ts"⟩).parallel = true := by
  decide +kernel

end DebtGauge.Settings
