import DebtGauge.Failure
import DebtGauge.FileTree
import DebtGauge.Source

/-!
# Source files

A source file is read whole; its bytes must be well-formed text.

Main definitions:

* `SourceFile` — a file's text with its size;
* `SourceFile.read` — reads a file, or fails.
-/

namespace DebtGauge

/-- The text of a file, its size in bytes and its number of lines. -/
structure SourceFile where
  path : FilePath
  text : String
  byteSize : Nat
  lineCount : Nat

/-- Reads the file that a path leads to. -/
def SourceFile.read (fs : FileSystem) (path : FilePath) : Except Failure SourceFile :=
  match fs.readText? path with
  | none => .error (.fileSystem .unreadableSource)
  | some text =>
    .ok { path, text, byteSize := Text.byteCount text.toList
          lineCount := (Source.ofString text).lineCount }

end DebtGauge
