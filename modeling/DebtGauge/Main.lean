import DebtGauge.Program
import DebtGauge.SyntaxTree.Stored
import Std.Time.DateTime.Timestamp

/-!
# The command line program

The outer layer: it loads the files that a call can be about, hands the call over to
`Program`, and writes and prints what comes of it. Files that cannot be read are loaded as
bytes that are no text, so that they are reported like other faulty files.
-/

namespace DebtGauge.Main

/-- Bytes that are no text. -/
def noText : ByteArray := ⟨#[0xFF]⟩

/-- What an action gives, if it succeeds. -/
def attempt (action : IO α) : IO (Option α) := do
  try return some (← action)
  catch _ => return none

/-- Whether a directory is at a path. -/
def isDirectory (path : FilePath) : IO Bool := do
  return (← attempt do (← IO.FS.realPath path.text).isDir).getD false

/-- Loads what is at a path; links to directories are not followed. -/
partial def load (path : String) : IO (Option FileTree) := do
  match ← attempt (IO.FS.realPath path) with
  | none => return none
  | some place =>
    if ← place.isDir then
      let entries ← (← place.readDir).toList.filterMapM fun entry => do
        let isLink := (← entry.path.symlinkMetadata).type == .symlink
        if isLink && (← entry.path.isDir) then return none
        return (← load entry.path.toString).map fun tree => (entry.fileName, tree)
      return some (.directory entries)
    else return some (.file ((← attempt (IO.FS.readBinFile path)).getD noText))

/-- The names on the way to a path. -/
def namesOf (path : FilePath) : List String :=
  path.normalComponents.filterMap fun
    | .name text => some text
    | _ => none

/-- Loads a file or directory into a tree, if it exists. -/
def loadInto (tree : FileTree) (names : List String) : IO FileTree := do
  match ← load (FileSystem.pathOf names).text with
  | some entry => return tree.put names entry
  | none => return tree

/-- Loads the files of a directory that speak about everything below it. -/
def loadMarks (tree : FileTree) (directory : List String) : IO FileTree := do
  let marks := [[Settings.fileName], [".ignore"], [".gitignore"], [".git", "info", "exclude"]]
  (marks.map (directory ++ ·)).foldlM loadInto tree

/-- The directories on the way to a place, the outermost first. -/
def outerDirectories (names : List String) : List (List String) :=
  (List.range names.length).map names.take

/-- Loads everything that a call is about, seen from the working directory. -/
def loadFor (workingDirectory : FilePath) (words : List String) : IO FileSystem := do
  let place (path : FilePath) :=
    namesOf ((path.absoluteFrom? workingDirectory).getD workingDirectory)
  let tree ← match CommandLine.read words with
    | .ok { command := .analyze arguments, .. } =>
      let root := place arguments.path
      let tree ← (outerDirectories root).foldlM loadMarks .empty
      let tree ← loadInto tree root
      match arguments.output with
      | none => pure tree
      | some output =>
        let target := place output
        let parent := FileSystem.pathOf target.dropLast
        let tree := if ← isDirectory parent then tree.makeDirectory target.dropLast else tree
        let taken ← isDirectory (FileSystem.pathOf target)
        pure (if taken then tree.makeDirectory target else tree)
    | _ => loadMarks (FileTree.empty.makeDirectory (place ⟨"."⟩)) (place ⟨"."⟩)
  return { tree, workingDirectory }

/-- The time of the clock. -/
def now : IO Instant := do
  let time := (← Std.Time.Timestamp.now).val
  return .ofSeconds time.second.val time.nano.val.toNat

/-- Calls the program and carries its result out. -/
def run (words : List String) : IO UInt32 := do
  let fs ← loadFor ⟨(← IO.currentDir).toString⟩ words
  let started ← now
  let clock ← IO.monoMsNow
  let parser := Parser.ofTrees fs.storedTrees
  let stage ← IO.lazyPure fun _ => Program.start parser fs started words
  let elapsed := (← IO.monoMsNow) - clock
  let result := Program.conclude fs (← (← IO.getStdout).isTty) (← now) elapsed stage
  for (path, content) in result.fs.changesSince fs do
    IO.FS.writeBinFile path.text content
  IO.print result.output
  IO.eprint result.errors
  return result.exitCode.toUInt32

end DebtGauge.Main

/-- The program: its words are those behind its own name. -/
def main (words : List String) : IO UInt32 :=
  DebtGauge.Main.run ("debtscore" :: words)
