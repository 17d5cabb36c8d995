import DebtGauge.Discovery.IgnoreRules
import DebtGauge.Discovery.Selection
import DebtGauge.FilePath.Order
import DebtGauge.FileTree

/-!
# The files of a project

A run looks at the files at and below its root that match an include pattern, match no
ignore pattern, and are not excluded by ignore files. The ignore files of a directory
speak about everything below it, and those of the directories above the root count too;
the nearest directory that has something to say about a path decides. An excluded
directory is not entered. The root itself is never excluded.

Main definitions:

* `IgnoreLevel` — the ignore files of one directory on the way to a place;
* `FileTree.walk` — the files of a tree that no ignore file excludes;
* `FileSystem.sourceFiles` — the files that a run looks at, in the order of their paths.
-/

namespace DebtGauge

/-- The ignore files of a directory, and the names that lead from it to a place below. -/
structure IgnoreLevel where
  below : List String
  /-- The rules of the file `.ignore`. -/
  general : IgnoreRules
  /-- The rules of the file `.gitignore`. -/
  versioned : IgnoreRules
  /-- The rules of the file `.git/info/exclude`. -/
  personal : IgnoreRules

namespace IgnoreLevel

/-- The rules of the file that names lead to; without such a file there are none. -/
def rulesAt (directory : FileTree) (names : List String) : IgnoreRules :=
  let file := names.foldl (fun tree name => tree.bind (·.child? name)) (some directory)
  ((file.bind (·.content?)).map IgnoreRules.ofContent).getD []

/-- The level of a directory, at the directory itself. -/
def ofDirectory (directory : FileTree) : IgnoreLevel where
  below := []
  general := rulesAt directory [".ignore"]
  versioned := rulesAt directory [".gitignore"]
  personal := rulesAt directory [".git", "info", "exclude"]

/-- The level at the entry `name` of its place. -/
def enter (name : String) (level : IgnoreLevel) : IgnoreLevel :=
  { level with below := level.below ++ [name] }

/-- The level's place as a path that is seen from its directory. -/
def path (level : IgnoreLevel) : String :=
  "/".intercalate level.below

/-- What the nearest of several levels says that has something to say. -/
def nearest? (levels : List IgnoreLevel) (rules : IgnoreLevel → IgnoreRules)
    (isDirectory : Bool) : Option IgnoreVerdict :=
  levels.findSome? fun level => (rules level).verdict? level.path isDirectory

/-- What the levels say about their place, the nearest level first. Files of an earlier
kind, at whatever level, outrank those of a later one. -/
def verdict? (levels : List IgnoreLevel) (isDirectory : Bool) : Option IgnoreVerdict :=
  (nearest? levels general isDirectory) <|>
    (nearest? levels versioned isDirectory) <|>
    (nearest? levels personal isDirectory)

end IgnoreLevel

namespace FileTree

/-- The levels at the place that names lead to, the nearest first; the directory at that
place is not among them. -/
def outerLevels : FileTree → List String → List IgnoreLevel → List IgnoreLevel
  | _, [], levels => levels
  | tree, name :: rest, levels =>
    let entered := (IgnoreLevel.ofDirectory tree :: levels).map (·.enter name)
    outerLevels ((tree.child? name).getD empty) rest entered

mutual

/-- The files of a tree that no ignore file excludes, as the names that lead to them. -/
def walk (levels : List IgnoreLevel) (place : List String) : FileTree → List (List String)
  | file _ => [place]
  | directory entries =>
    walkEntries (IgnoreLevel.ofDirectory (directory entries) :: levels) place entries

/-- The files of the entries of a directory that no ignore file excludes. -/
def walkEntries (levels : List IgnoreLevel) (place : List String) :
    List (String × FileTree) → List (List String)
  | [] => []
  | (name, tree) :: rest =>
    let here := levels.map (·.enter name)
    let found :=
      if IgnoreLevel.verdict? here tree.isDirectory = some .excluded then []
      else walk here (place ++ [name]) tree
    found ++ walkEntries levels place rest

end

end FileTree

/-- The files at and below a root that a run looks at, in the order of their paths. -/
def FileSystem.sourceFiles (fs : FileSystem) (root : FilePath) (selection : FileSelection) :
    Except Failure (List FilePath) := do
  match fs.locate? root with
  | none => throw (.fileSystem (.missingPath root))
  | some found =>
    let patterns ← selection.patterns
    let levels := FileTree.outerLevels fs.tree found.names []
    let paths := (found.tree.walk levels []).map fun names =>
      names.foldl (fun path name => path.join ⟨name⟩) root
    return FilePath.sort (paths.filter fun path => patterns.selects (root.seenFrom path))

end DebtGauge
