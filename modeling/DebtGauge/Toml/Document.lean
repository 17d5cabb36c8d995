import DebtGauge.Toml.Quoted
import DebtGauge.Toml.Scalar

/-!
# Reading TOML documents

Main definitions:

* `Toml.readValue?` — reads a value off the front of a text;
* `Toml.readDocument?` — the table that a whole text describes, if it is well-formed.
-/

namespace DebtGauge.Toml

/-! ## Blanks, comments and line ends -/

/-- A text behind its leading blanks. -/
def skipSpaces (cs : List Char) : List Char := cs.dropWhile isSpace

/-- A text behind the comment it may start with; a comment holds no control characters. -/
def skipComment? : List Char → Option (List Char)
  | '#' :: rest =>
    let comment := rest.takeWhile (· ≠ '\n')
    let content := if comment.getLast? = some '\r' && comment.length < rest.length then
      comment.dropLast else comment
    if content.all isPlain then some (rest.drop comment.length) else none
  | cs => some cs

/-- A text behind the rest of a line: blanks, perhaps a comment, and the line end or the
end of the text. -/
def finishLine? (cs : List Char) : Option (List Char) := do
  match ← skipComment? (skipSpaces cs) with
  | [] => return []
  | '\n' :: rest => return rest
  | '\r' :: '\n' :: rest => return rest
  | _ => none

/-- A text behind blanks, comments and line ends; `steps` bounds the number of lines. -/
def skipLines? : Nat → List Char → Option (List Char)
  | 0, cs => some cs
  | steps + 1, cs =>
    match skipSpaces cs with
    | '\n' :: rest => skipLines? steps rest
    | '\r' :: '\n' :: rest => skipLines? steps rest
    | '#' :: rest => (skipComment? ('#' :: rest)).bind (skipLines? steps)
    | rest => some rest

/-- A text behind all blanks, comments and line ends it starts with. -/
def skipFiller? (cs : List Char) : Option (List Char) :=
  skipLines? (cs.length + 1) cs

/-! ## Keys -/

/-- Characters of keys without quotes. -/
def isKeyChar (c : Char) : Bool :=
  c.isAlphanum || c = '_' || c = '-'

/-- Reads one part of a key. -/
def readKeyPart? (cs : List Char) : Option (String × List Char) :=
  match cs with
  | '"' :: _ | '\'' :: _ => readOneLine? cs
  | _ =>
    let word := cs.takeWhile isKeyChar
    if word.isEmpty then none else some (String.ofList word, cs.drop word.length)

/-- Reads the parts of a key with dots between them; `done` holds the parts so far, last
first, and `steps` bounds their number. -/
def readKeyParts? (done : List String) : Nat → List Char → Option (List String × List Char)
  | 0, _ => none
  | steps + 1, cs => do
    let (part, rest) ← readKeyPart? (skipSpaces cs)
    match skipSpaces rest with
    | '.' :: rest => readKeyParts? (part :: done) steps rest
    | rest => return ((part :: done).reverse, rest)

/-- Reads a key: the parts before the last one, and that one. -/
def readKey? (cs : List Char) : Option (List String × String × List Char) := do
  let (parts, rest) ← readKeyParts? [] (cs.length + 1) cs
  let key ← parts.getLast?
  return (parts.dropLast, key, rest)

/-! ## Values -/

/-- Characters of numbers, dates and words. -/
def isWordChar (c : Char) : Bool :=
  c.isAlphanum || c = '_' || c = '-' || c = '+' || c = '.' || c = ':'

/-- Reads a word; a date may go on with a time behind a blank. -/
def takeWord (cs : List Char) : List Char × List Char :=
  let word := cs.takeWhile isWordChar
  let rest := cs.drop word.length
  match rest with
  | ' ' :: a :: b :: ':' :: more =>
    if takeDate? word = some [] && a.isDigit && b.isDigit then
      let time := (a :: b :: ':' :: more).takeWhile isWordChar
      (word ++ ' ' :: time, rest.drop (time.length + 1))
    else (word, rest)
  | _ => (word, rest)

/-- Reads items with commas between them up to a closing bracket. A comma may stand behind
the last one, and line ends and comments may stand anywhere between. -/
def readItems? (item : List Char → α → Option (α × List Char)) (close : Char) :
    Nat → α → List Char → Option (α × List Char)
  | 0, _, _ => none
  | steps + 1, done, cs => do
    match ← skipFiller? cs with
    | [] => none
    | c :: rest =>
      if c = close then return (done, rest)
      let (done, rest) ← item (c :: rest) done
      match ← skipFiller? rest with
      | ',' :: rest => readItems? item close steps done rest
      | c :: rest => if c = close then return (done, rest) else none
      | [] => none

/-- Reads a key and its value into a table. -/
def readPair? (value : List Char → Option (Toml × List Char)) (cs : List Char)
    (current : OpenTable) : Option (OpenTable × List Char) := do
  let (path, key, rest) ← readKey? cs
  let rest ← match rest with
    | '=' :: rest => some rest
    | _ => none
  let (value, rest) ← value (skipSpaces rest)
  return (← insert? path key value current, rest)

/-- Tables inside braces are complete, so nothing may add to them later. -/
def closeBraces (current : OpenTable) : Toml := .table .braces current.entries

/-- Reads a value that is nested less than `depth` deep. -/
def readValue? : Nat → List Char → Option (Toml × List Char)
  | 0, _ => none
  | depth + 1, cs =>
    match cs with
    | '"' :: _ | '\'' :: _ => (readString? cs).map fun (text, rest) => (.string text, rest)
    | '[' :: rest =>
      let item (cs : List Char) (done : List Toml) :=
        (readValue? depth cs).map fun (value, rest) => (value :: done, rest)
      (readItems? item ']' cs.length [] rest).map fun (items, rest) =>
        (.array items.reverse, rest)
    | '\x7b' :: rest =>
      (readItems? (readPair? (readValue? depth)) '\x7d' cs.length ⟨.header, []⟩ rest).map
        fun (inner, rest) => (closeBraces inner, rest)
    | _ =>
      let (word, rest) := takeWord cs
      (scalar? word).map (·, rest)

/-- How deep values may be nested. -/
def depthLimit : Nat := 80

/-! ## Statements -/

/-- A document that is being read: its table, and the path of the header that the next
keys stand under. -/
structure Draft where
  document : OpenTable
  header : List String

/-- Reads the parts of a header up to its closing brackets. -/
def readHeader? (closing : List Char) (cs : List Char) :
    Option (List String × String × List Char) := do
  let (path, key, rest) ← readKey? cs
  if closing.isPrefixOf rest then return (path, key, rest.drop closing.length) else none

/-- Reads a statement: a header, or a key with its value. -/
def readStatement? (cs : List Char) (draft : Draft) : Option (Draft × List Char) :=
  match cs with
  | '[' :: '[' :: rest => do
    let (path, key, rest) ← readHeader? [']', ']'] rest
    return (⟨← openItem? path key draft.document, path ++ [key]⟩, rest)
  | '[' :: rest => do
    let (path, key, rest) ← readHeader? [']'] rest
    return (⟨← openTable? path key draft.document, path ++ [key]⟩, rest)
  | _ => do
    let (path, key, rest) ← readKey? cs
    let rest ← match rest with
      | '=' :: rest => some rest
      | _ => none
    let (value, rest) ← readValue? depthLimit (skipSpaces rest)
    let document ← changeAt? false (insert? path key value) draft.header draft.document
    return ({ draft with document }, rest)

/-- Reads statements up to the end of a text, each on a line of its own; `steps` bounds
their number. -/
def readStatements? : Nat → Draft → List Char → Option Draft
  | 0, _, _ => none
  | steps + 1, draft, cs => do
    match ← skipFiller? cs with
    | [] => return draft
    | cs => do
      let (draft, rest) ← readStatement? cs draft
      readStatements? steps draft (← finishLine? rest)

/-- A text behind the byte order mark it may start with. -/
def skipOrderMark : List Char → List Char
  | '\ufeff' :: rest => rest
  | cs => cs

/-- The table that a whole text describes. -/
def readDocument? (text : String) : Option Toml := do
  let cs := skipOrderMark text.toList
  let draft ← readStatements? (cs.length + 1) ⟨⟨.header, []⟩, []⟩ cs
  return draft.document.close

end DebtGauge.Toml
