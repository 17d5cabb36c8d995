import DebtGauge.FileTree
import DebtGauge.Settings.Document

/-!
# Finding the settings of a project

The settings of a project stand in the nearest settings file at or above its root that
can be read and holds proper settings. Only a limited number of directories is searched.

Main definitions:

* `Settings.load` — the settings of a given file, or why it holds none;
* `Settings.search` — the settings that apply to a root.
-/

namespace DebtGauge.Settings

/-- The settings of a file. -/
def load (fs : FileSystem) (path : FilePath) : Except Failure Settings :=
  match fs.readText? path with
  | none => .error (.fileSystem .unreadableSettings)
  | some text =>
    (parse text).mapError fun failure => .settings (.improperFile path failure.message)

/-- How many directories are searched, the first one included. -/
def searchDepth : Nat := 10

/-- The directory in which the search for a root starts: the root or, if that is a file,
the directory it is in. -/
def startDirectory (fs : FileSystem) (root : FilePath) : FilePath :=
  let start := if fs.isFile root then root.parent?.getD ⟨""⟩ else root
  (fs.canonical? start).getD start

/-- The places that may hold the settings of a root, the nearest first. -/
def searchPlaces (fs : FileSystem) (root : FilePath) : List FilePath :=
  ((startDirectory fs root).ancestors searchDepth).map (·.join ⟨fileName⟩)

/-- The settings that apply to a root: those of the nearest file that holds proper ones,
and the standard settings if there is none. -/
def search (fs : FileSystem) (root : FilePath) : Settings :=
  ((searchPlaces fs root).findSome? fun path =>
    if fs.isFile path then (load fs path).toOption else none).getD standard

end DebtGauge.Settings
