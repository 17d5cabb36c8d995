import DebtGauge.FilePath.Basic
import DebtGauge.Text.Utf8

/-!
# Trees of files

A file system as a value: directories with named entries and files with their bytes. A
path leads to an entry component by component; it may only go on at a directory, and a
path that ends in a slash or a dot leads to directories alone.

Main definitions:

* `FileTree` — a file or a directory;
* `FileSystem.locate?` — the entry that a path leads to, and its canonical place;
* `FileSystem.write?` — the file system after a file was written;
* `FileSystem.changesSince` — what has been written.
-/

namespace DebtGauge

/-- A file with its bytes, or a directory with its entries. -/
inductive FileTree where
  | file (content : ByteArray)
  | directory (entries : List (String × FileTree))

namespace FileTree

/-- A directory without entries. -/
def empty : FileTree := directory []

/-- The entries of a directory; a file has none. -/
def entries : FileTree → List (String × FileTree)
  | file _ => []
  | directory entries => entries

/-- The entry of a directory with a given name. -/
def child? (tree : FileTree) (name : String) : Option FileTree :=
  tree.entries.lookup name

/-- Whether an entry is a directory. -/
def isDirectory : FileTree → Bool
  | file _ => false
  | directory _ => true

/-- The bytes of a file. -/
def content? : FileTree → Option ByteArray
  | file content => some content
  | directory _ => none

/-- Entries with one of them set; a new one comes last. -/
def setEntry (name : String) (tree : FileTree) (entries : List (String × FileTree)) :
    List (String × FileTree) :=
  if (entries.lookup name).isSome then
    entries.map fun (other, old) => if other = name then (other, tree) else (other, old)
  else entries ++ [(name, tree)]

/-- A tree with an entry put at the place that names lead to; directories on the way that
are missing are made, and files on the way are replaced. -/
def put (tree : FileTree) : List String → FileTree → FileTree
  | [], entry => entry
  | name :: rest, entry =>
    directory (setEntry name (put ((tree.child? name).getD empty) rest entry) tree.entries)

/-- A tree with a directory made, and those on the way to it; one that is there already
stays as it is. -/
def makeDirectory (tree : FileTree) : List String → FileTree
  | [] => directory tree.entries
  | name :: rest =>
    directory (setEntry name (makeDirectory ((tree.child? name).getD empty) rest) tree.entries)

mutual

/-- The files of a tree with the names that lead to them. -/
def files (place : List String) : FileTree → List (List String × ByteArray)
  | file content => [(place, content)]
  | directory entries => filesOf place entries

/-- The files of the entries of a directory. -/
def filesOf (place : List String) : List (String × FileTree) → List (List String × ByteArray)
  | [] => []
  | (name, tree) :: rest => files (place ++ [name]) tree ++ filesOf place rest

end

end FileTree

/-- A tree of files, and the directory that relative paths start from. -/
structure FileSystem where
  tree : FileTree
  workingDirectory : FilePath

namespace FileSystem

open FilePath (Component)

/-- An entry with the names that lead to it. -/
structure Found where
  names : List String
  tree : FileTree

/-- Follows components from an entry; `above` holds the entries passed on the way, each
with the name that was taken there, the last one first. -/
def follow? : List Component → List (String × FileTree) → FileTree → Option Found
  | [], above, tree => some ⟨(above.map Prod.fst).reverse, tree⟩
  | component :: rest, above, tree =>
    if !tree.isDirectory then none
    else match component, above with
      | .name name, _ => (tree.child? name).bind (follow? rest ((name, tree) :: above))
      | .parent, (_, outer) :: above => follow? rest above outer
      | _, _ => follow? rest above tree

/-- Whether a path can lead to directories alone. -/
def namesDirectory (path : FilePath) : Bool :=
  match (Text.splitOn '/' path.text.toList).getLast? with
  | some piece => piece = [] || piece = ['.']
  | none => true

/-- The entry that a path leads to. The empty path leads nowhere. -/
def locate? (fs : FileSystem) (path : FilePath) : Option Found :=
  if path.text = "" then none
  else
    let absolute := if path.isAbsolute then path else fs.workingDirectory.join path
    (follow? absolute.components [] fs.tree).filter fun found =>
      found.tree.isDirectory || !namesDirectory path

/-- Whether a path leads to an entry. -/
def pathExists (fs : FileSystem) (path : FilePath) : Bool :=
  (fs.locate? path).isSome

/-- The bytes of the file that a path leads to. -/
def readBytes? (fs : FileSystem) (path : FilePath) : Option ByteArray :=
  (fs.locate? path).bind (·.tree.content?)

/-- Whether a path leads to a file. -/
def isFile (fs : FileSystem) (path : FilePath) : Bool :=
  (fs.readBytes? path).isSome

/-- The text of the file that a path leads to. -/
def readText? (fs : FileSystem) (path : FilePath) : Option String :=
  (fs.readBytes? path).bind Text.ofBytes?

/-- The absolute path that consists of names. -/
def pathOf (names : List String) : FilePath :=
  .ofComponents (.root :: names.map .name)

/-- The path of the entry that a path leads to, without `.` and `..`. -/
def canonical? (fs : FileSystem) (path : FilePath) : Option FilePath :=
  (fs.locate? path).map fun found => pathOf found.names

/-- The file system after a file was written; its directory must be there, and it must not
be a directory itself. -/
def write? (fs : FileSystem) (path : FilePath) (content : String) : Option FileSystem := do
  let name ← path.fileName?
  if namesDirectory path then none
  let above ← path.parent?
  let directory ← fs.locate? (if above.text = "" then ⟨"."⟩ else above)
  if !directory.tree.isDirectory then none
  if ((directory.tree.child? name).map FileTree.isDirectory).getD false then none
  return { fs with
    tree := fs.tree.put (directory.names ++ [name]) (.file (Text.toBytes content)) }

/-- The files that a file system has and another one does not have, or not with the same
content. -/
def changesSince (fs before : FileSystem) : List (FilePath × ByteArray) :=
  ((fs.tree.files []).filter fun (names, content) =>
    before.readBytes? (pathOf names) != some content).map fun (names, content) =>
      (pathOf names, content)

end FileSystem

end DebtGauge
