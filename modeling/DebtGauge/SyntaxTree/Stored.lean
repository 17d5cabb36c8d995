import DebtGauge.FileTree
import DebtGauge.Json.Reader
import DebtGauge.SyntaxTree.Json

/-!
# Stored syntax trees

The grammar's tool leaves the tree of a source file beside it, in a file whose name has
`.tree` behind the name of the source.

Main definitions:

* `FileSystem.storedTrees` — the trees of all source files that have a stored one.
-/

namespace DebtGauge

/-- Where the tree of a source file is stored. -/
def FilePath.treePlace (path : FilePath) : FilePath := ⟨path.text ++ ".tree"⟩

namespace FileSystem

/-- The tree stored beside a source file. -/
def storedTree? (fs : FileSystem) (path : FilePath) : Option KnownTree := do
  let language ← Language.ofPath? path
  let listing ← fs.readText? path.treePlace
  let text ← fs.readText? path
  let tree ← SyntaxTree.ofJson? (.ofString text) (← Json.read? listing)
  return { language, text, tree }

/-- The trees of all source files that have a stored one. -/
def storedTrees (fs : FileSystem) : List KnownTree :=
  (fs.tree.files []).filterMap fun (names, _) => fs.storedTree? (pathOf names)

end FileSystem

end DebtGauge
