import DebtGauge.Text.Lines

/-!
# File paths

A path keeps the text it was given; what it means is the list of its components. Empty
pieces between slashes do not count, and neither does a `.` unless it opens a relative
path. Functions that cut a path work on the text, so that what is left of it keeps its
spelling.

A path is a Unicode text here. File systems may also hold names that are none, and what is
made of the texts of paths, such as the keys of cycles and the files that an import may stand
for, would lose a part of them; paths with such names are left out.

Main definitions:

* `FilePath.components` — the components of a path;
* `FilePath.join`, `FilePath.parent?`, `FilePath.fileName?`, `FilePath.extension?` —
  building and cutting;
* `FilePath.stripRoot?` — a path relative to a directory above it;
* `FilePath.absoluteFrom?` — a path seen from a working directory.
-/

namespace DebtGauge

/-- A path as it was written. -/
structure FilePath where
  text : String
deriving DecidableEq, Inhabited

namespace FilePath

/-- A component of a path. -/
inductive Component where
  | root
  | current
  | parent
  | name (text : String)
deriving DecidableEq

/-- The component that a piece between slashes stands for; an empty piece and a `.` stand
for none. -/
def Component.ofPiece? (piece : List Char) : Option Component :=
  if piece = [] ∨ piece = ['.'] then none
  else if piece = ['.', '.'] then some .parent
  else some (.name (String.ofList piece))

/-- The text of a component. -/
def Component.text : Component → String
  | .root => "/"
  | .current => "."
  | .parent => ".."
  | .name text => text

/-- A path's text falls into a lead (`/`, a `.` that counts, or nothing) and the pieces
between the slashes of the rest. -/
structure Cut where
  lead : List Char
  pieces : List (List Char)

/-- Cuts a text into its lead and its pieces. -/
def Cut.ofText : List Char → Cut
  | '/' :: rest => ⟨['/'], Text.splitOn '/' rest⟩
  | ['.'] => ⟨['.'], []⟩
  | '.' :: '/' :: rest => ⟨['.'], Text.splitOn '/' ('/' :: rest)⟩
  | cs => ⟨[], Text.splitOn '/' cs⟩

/-- The text of a cut. -/
def Cut.text (cut : Cut) : List Char :=
  cut.lead ++ List.intercalate ['/'] cut.pieces

/-- The component of the lead, if there is one. -/
def Cut.leadComponent? (cut : Cut) : Option Component :=
  match cut.lead with
  | ['/'] => some .root
  | ['.'] => some .current
  | _ => none

/-- The components of a path from left to right. -/
def components (path : FilePath) : List Component :=
  let cut := Cut.ofText path.text.toList
  cut.leadComponent?.toList ++ cut.pieces.filterMap Component.ofPiece?

/-- An absolute path starts with a slash. -/
def isAbsolute (path : FilePath) : Bool :=
  path.text.toList.head? = some '/'

/-- The pieces without those at the end that stand for no component. -/
def dropEmptyEnd (pieces : List (List Char)) : List (List Char) :=
  (pieces.reverse.dropWhile fun piece => (Component.ofPiece? piece).isNone).reverse

/-- The path without its last component, spelled as before; a root and an empty path
have none above them. -/
def parent? (path : FilePath) : Option FilePath :=
  let cut := Cut.ofText path.text.toList
  match (dropEmptyEnd cut.pieces).reverse with
  | _ :: above =>
    some ⟨String.ofList { cut with pieces := dropEmptyEnd above.reverse }.text⟩
  | [] => if cut.lead = ['.'] then some ⟨""⟩ else none

/-- The last component if it is a name. -/
def fileName? (path : FilePath) : Option String :=
  match path.components.getLast? with
  | some (.name text) => some text
  | _ => none

/-- The file name, or the whole path if it has none. -/
def displayName (path : FilePath) : String :=
  path.fileName?.getD path.text

/-- What follows the last dot of the file name; a dot that opens the name does not count. -/
def extension? (path : FilePath) : Option String :=
  path.fileName?.bind fun name =>
    match (Text.splitOn '.' name.toList).reverse with
    | last :: second :: rest =>
      if rest = [] ∧ second = [] then none else some (String.ofList last)
    | _ => none

/-- `relative` seen from `base`; an absolute path is seen as itself from everywhere. -/
def join (base relative : FilePath) : FilePath :=
  if relative.isAbsolute then relative
  else if base.text.toList.getLast?.all (· = '/') then ⟨base.text ++ relative.text⟩
  else ⟨base.text ++ "/" ++ relative.text⟩

/-- A path with another last component in place of its file name. -/
def withFileName (path : FilePath) (name : String) : FilePath :=
  match path.fileName? with
  | some _ => (path.parent?.getD path).join ⟨name⟩
  | none => path.join ⟨name⟩

/-- The path that consists of the given components. -/
def ofComponents : List Component → FilePath
  | .root :: rest =>
    ⟨String.ofList ('/' :: List.intercalate ['/'] (rest.map (·.text.toList)))⟩
  | components => ⟨String.ofList (List.intercalate ['/'] (components.map (·.text.toList)))⟩

/-- What is left of a list behind a front part. -/
def afterFront? [DecidableEq α] : List α → List α → Option (List α)
  | rest, [] => some rest
  | x :: rest, y :: front => if x = y then afterFront? rest front else none
  | [], _ :: _ => none

/-- The part of a path below the directory `base`, if it lies there. -/
def stripRoot? (path base : FilePath) : Option FilePath :=
  (afterFront? path.components base.components).map ofComponents

/-- A directory followed by the directories above it, at most `limit` in all. -/
def ancestors (path : FilePath) : Nat → List FilePath
  | 0 => []
  | limit + 1 => path :: match path.parent? with
    | some above => above.ancestors limit
    | none => []

/-- Two slashes at the start, and no third one, are a root of their own. -/
def hasDoubleRoot (path : FilePath) : Bool :=
  match path.text.toList with
  | '/' :: '/' :: rest => rest.head? != some '/'
  | _ => false

/-- A path made absolute from the directory `workingDirectory`, without its `.`
components; a slash at the end stays. The empty path cannot be made absolute. -/
def absoluteFrom? (path workingDirectory : FilePath) : Option FilePath :=
  let endsInSlash := path.text.toList.getLast? = some '/'
  let parts := path.components.filter (· ≠ .current)
  let base := if path.hasDoubleRoot then ⟨"/" ++ (ofComponents parts).text⟩
    else if path.isAbsolute then ofComponents parts
    else parts.foldl (fun dir component => dir.join ⟨component.text⟩) workingDirectory
  if path.text = "" then none
  else some (if endsInSlash then base.join ⟨""⟩ else base)

end FilePath

end DebtGauge
