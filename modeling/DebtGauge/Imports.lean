import DebtGauge.FilePath.Normal
import DebtGauge.SyntaxTree.Parsing

/-!
# Imports of a file

Only import declarations at the top level of a file count. Specifiers that start with a
dot name files, relative to the directory of the importing file.

Main definitions:

* `ParsedFile.specifiers` — the module specifiers of a file;
* `ParsedFile.imports` — the normalised paths of the files it imports.
-/

namespace DebtGauge

/-- Whether a character quotes a string; the last of the three is the grave accent. -/
def isQuote (c : Char) : Bool :=
  c = '"' || c = '\'' || c = '\x60'

/-- A text without the quotes at its two ends. -/
def unquoted (cs : List Char) : List Char :=
  ((cs.dropWhile isQuote).reverse.dropWhile isQuote).reverse

/-- The specifier of an import declaration. -/
def SyntaxTree.specifier? (source : Source) (tree : SyntaxTree) : Option String :=
  if tree.kind = "import_statement" then
    (tree.field? "source").map fun text => String.ofList (unquoted (text.text source))
  else none

namespace ParsedFile

/-- The module specifiers of a file, in source order. -/
def specifiers (file : ParsedFile) : List String :=
  file.tree.children.filterMap (·.specifier? file.source)

/-- The paths of the files that a file imports, in source order. -/
def imports (file : ParsedFile) : List FilePath :=
  let directory := file.path.parent?.getD ⟨""⟩
  (file.specifiers.filter FilePath.isRelativeSpecifier).map directory.resolve

end ParsedFile

end DebtGauge
