import DebtGauge.Discovery.IgnoreGlob
import DebtGauge.Text.Blank
import DebtGauge.Text.Lines
import DebtGauge.Text.Utf8

/-!
# Ignore files

An ignore file holds a rule per line. A rule excludes the paths that its pattern matches,
or takes them back in if it starts with an exclamation mark; of several rules that match a
path the last one decides. Paths are seen from the directory of the file.

Main definitions:

* `IgnoreRule.ofLine?` — the rule of a line, if it holds one;
* `IgnoreRules.ofContent` — the rules of a file;
* `IgnoreRules.verdict?` — what the rules say about a path.
-/

namespace DebtGauge

/-- A rule of an ignore file. -/
structure IgnoreRule where
  glob : IgnoreGlob
  /-- Whether the paths that match are taken back in. -/
  keeps : Bool
  directoriesOnly : Bool

namespace IgnoreRule

/-- A line without the blanks at its end, unless a backslash keeps the last one. -/
def trimLine (line : List Char) : List Char :=
  if ['\\', ' '].isSuffixOf line then line
  else (line.reverse.dropWhile Text.isBlank).reverse

/-- What stands before the pattern of a line. -/
structure Lead where
  keeps : Bool
  /-- Whether a slash ties the pattern to the directory of the file. -/
  anchored : Bool

/-- Takes the marks off the front of a line; a backslash takes the meaning of a mark away. -/
def takeLead : List Char → Lead × List Char
  | '\\' :: '!' :: rest => (⟨false, false⟩, '!' :: rest)
  | '\\' :: '#' :: rest => (⟨false, false⟩, '#' :: rest)
  | '!' :: '/' :: rest => (⟨true, true⟩, rest)
  | '!' :: rest => (⟨true, false⟩, rest)
  | '/' :: rest => (⟨false, true⟩, rest)
  | line => (⟨false, false⟩, line)

/-- Takes the slash off the end of a line, which restricts its rule to directories. -/
def takeTail (line : List Char) : Bool × List Char :=
  match line.reverse with
  | '/' :: '\\' :: rest => (true, rest.reverse)
  | '/' :: rest => (true, rest.reverse)
  | _ => (false, line)

/-- The pattern for whole paths: one without a slash matches at every depth, and one that
ends in `**` matches what is in a directory but not the directory. -/
def wholePattern (anchored : Bool) (pattern : List Char) : List Char :=
  let anyDepth := ['*', '*', '/']
  let placed :=
    if anchored || pattern.contains '/' || pattern = ['*', '*'] then pattern
    else anyDepth ++ pattern
  if ['/', '*', '*'].isSuffixOf placed then placed ++ ['/', '*'] else placed

/-- The rule of a line. Comments, blank lines and lines with a faulty pattern hold none. -/
def ofLine? (line : List Char) : Option IgnoreRule :=
  let trimmed := trimLine line
  if line.head? = some '#' || trimmed.isEmpty then none
  else
    let (lead, body) := takeLead trimmed
    let (directoriesOnly, pattern) := takeTail body
    (IgnoreGlob.parse? (wholePattern lead.anchored pattern)).map fun glob =>
      { glob, keeps := lead.keeps, directoriesOnly }

/-- Whether a rule is about a path. -/
def appliesTo (rule : IgnoreRule) (path : String) (isDirectory : Bool) : Bool :=
  (isDirectory || !rule.directoriesOnly) && rule.glob.matchesText path

end IgnoreRule

/-- The rules of a file, from top to bottom. -/
abbrev IgnoreRules := List IgnoreRule

/-- What ignore rules say about a path. -/
inductive IgnoreVerdict where
  | excluded
  | kept
deriving DecidableEq

namespace IgnoreRules

/-- A line without the byte order marks it starts with. -/
def dropOrderMarks (line : List Char) : List Char :=
  line.dropWhile (· = '\ufeff')

/-- The lines of a file up to the first one that is no text. -/
def readableLines (content : ByteArray) : List (List Char) :=
  let pieces := Text.splitOn 0x0A content.toList
  let texts := pieces.map fun piece => Text.ofBytes? ⟨piece.toArray⟩
  (texts.takeWhile Option.isSome).filterMap (·.map String.toList)

/-- The rules of a file with the given content. -/
def ofContent (content : ByteArray) : IgnoreRules :=
  match readableLines content with
  | [] => []
  | first :: rest =>
    (dropOrderMarks first :: rest).filterMap fun line =>
      IgnoreRule.ofLine? (Text.dropCarriageReturn line)

/-- What the last rule about a path says; nothing if no rule is about it. -/
def verdict? (rules : IgnoreRules) (path : String) (isDirectory : Bool) :
    Option IgnoreVerdict :=
  (rules.reverse.find? (·.appliesTo path isDirectory)).map fun rule =>
    if rule.keeps then .kept else .excluded

end IgnoreRules

end DebtGauge
