import DebtGauge.FilePath.Basic
import DebtGauge.FunctionUnit.Basic
import DebtGauge.Markers
import DebtGauge.Text.Blank
import DebtGauge.SyntaxTree.Parsing

/-!
# Code blocks

A function is compared with others by its normalised text: comments are cut out, and the
words that are left stand one blank apart.

Main definitions:

* `CodeBlock` — the normalised text of a function;
* `SyntaxTree.normalizedText` — the normalised text of a node;
* `ParsedFile.codeBlocks` — the blocks of a file that are long enough to be compared.
-/

namespace DebtGauge

/-- The normalised text of a function, and where the function is. -/
structure CodeBlock where
  path : FilePath
  tokens : String
  startLine : Nat
  endLine : Nat
  name : Option String
deriving DecidableEq

namespace CodeBlock

/-- The number of characters of a block. -/
def length (block : CodeBlock) : Nat := block.tokens.length

/-- Blocks with fewer characters are not compared. -/
def leastLength : Nat := 50

/-- Whether a block is long enough to be compared. -/
def isComparable (block : CodeBlock) : Bool := leastLength ≤ block.length

end CodeBlock

namespace SyntaxTree

/-- The text from `cursor` to `stop` with a blank in place of each of the given nodes,
which lie in this order between the two. -/
def textWithout (source : Source) (stop : Nat) : Nat → List SyntaxTree → List Char
  | cursor, [] => source.slice cursor stop
  | cursor, hole :: holes =>
    source.slice cursor hole.info.start.offset ++
      ' ' :: textWithout source stop hole.info.stop.offset holes

/-- The text of a node without its comments, its words one blank apart. -/
def normalizedText (source : Source) (tree : SyntaxTree) : String :=
  let text := textWithout source tree.info.stop.offset tree.info.start.offset tree.comments
  String.ofList (List.intercalate [' '] (Text.words text))

end SyntaxTree

/-- The block of a function of a file. -/
def ParsedFile.codeBlock (file : ParsedFile) (parent : Option SyntaxTree) (tree : SyntaxTree) :
    CodeBlock where
  path := file.path
  tokens := tree.normalizedText file.source
  startLine := tree.info.start.row + 1
  endLine := tree.info.stop.row + 1
  name := tree.functionName? file.source parent

/-- The blocks of a file, in source order. -/
def ParsedFile.codeBlocks (file : ParsedFile) : List CodeBlock :=
  (file.tree.functions.map fun (found, parent) => file.codeBlock parent found).filter
    (·.isComparable)

end DebtGauge
