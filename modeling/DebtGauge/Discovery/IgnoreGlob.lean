/-!
# Globs of ignore files

The patterns in ignore files differ from those for whole paths: `*` and `?` stop at a
slash, `**` stands for directories only where slashes or the pattern's ends surround it,
a backslash takes the special meaning of the next character away, and braces hold
alternatives. They match the bytes of a path.

Main definitions:

* `IgnoreGlob` — a pattern;
* `IgnoreGlob.parse?` — reads a pattern;
* `IgnoreGlob.matchesText` — whether a pattern matches a whole text.
-/

namespace DebtGauge

/-- A step of a pattern. -/
inductive GlobStep where
  | byte (value : UInt8)
  /-- Any byte but a slash. -/
  | anyByte
  /-- Any bytes but slashes. -/
  | anyBytes
  /-- A byte in one of the ranges, or in none of them. -/
  | oneOf (negated : Bool) (ranges : List (UInt8 × UInt8))
  /-- `**` at the start, with the slash behind it. -/
  | leadingDirectories
  /-- `**` between slashes, with both of them. -/
  | innerDirectories
  /-- `**` at the end, with the slash before it. -/
  | trailingDirectories
  | alternatives (branches : List (List GlobStep))

/-- A pattern is a sequence of steps. -/
abbrev IgnoreGlob := List GlobStep

namespace IgnoreGlob

/-! ## Matching -/

/-- The slash as a byte. -/
def slash : UInt8 := 0x2F

/-- What is left of a text behind each number of bytes that are no slashes. -/
def withinName : List UInt8 → List (List UInt8)
  | [] => [[]]
  | b :: rest => (b :: rest) :: if b = slash then [] else withinName rest

/-- What is left of a text behind each of its slashes. -/
def behindSlashes : List UInt8 → List (List UInt8)
  | [] => []
  | b :: rest => if b = slash then rest :: behindSlashes rest else behindSlashes rest

/-- What is left of a text behind any number of bytes. -/
def suffixes : List UInt8 → List (List UInt8)
  | [] => [[]]
  | b :: rest => (b :: rest) :: suffixes rest

/-- What is left of a text behind a step that takes one byte. -/
def behindByte (takes : UInt8 → Bool) : List UInt8 → List (List UInt8)
  | [] => []
  | b :: rest => if takes b then [rest] else []

mutual

/-- What may be left of a text behind a step. -/
def behindStep (text : List UInt8) : GlobStep → List (List UInt8)
  | .byte value => behindByte (· = value) text
  | .anyByte => behindByte (· ≠ slash) text
  | .anyBytes => withinName text
  | .oneOf negated ranges =>
    behindByte (fun b => (ranges.any fun (low, high) => low ≤ b && b ≤ high) != negated) text
  | .leadingDirectories => text :: behindSlashes text
  | .innerDirectories =>
    (behindByte (· = slash) text).flatMap fun rest => rest :: behindSlashes rest
  | .trailingDirectories => (behindByte (· = slash) text).flatMap suffixes
  | .alternatives [] => [text]
  | .alternatives branches => behindBranches text branches

/-- What may be left of a text behind one of several sequences of steps. -/
def behindBranches (text : List UInt8) : List (List GlobStep) → List (List UInt8)
  | [] => []
  | branch :: rest => behindSteps [text] branch ++ behindBranches text rest

/-- What may be left behind a sequence of steps, of one of several texts. -/
def behindSteps (texts : List (List UInt8)) : List GlobStep → List (List UInt8)
  | [] => texts
  | step :: rest => behindSteps (texts.flatMap fun text => behindStep text step).eraseDups rest

end

/-- Whether a pattern matches a whole text; a pattern of `**` alone matches every one. -/
def matchesText (glob : IgnoreGlob) (text : String) : Bool :=
  match glob with
  | [.leadingDirectories] => true
  | steps => (behindSteps [text.toUTF8.toList] steps).contains []

/-! ## Reading -/

/-- The steps of a character that stands for itself. -/
def literal (c : Char) : List GlobStep :=
  (String.singleton c).toUTF8.toList.map .byte

/-- The byte ranges of a range of characters: the last byte of the first character up to
the first byte of the last one, and the bytes around them. -/
def byteRanges (first last : Char) : List (UInt8 × UInt8) :=
  let low := (String.singleton first).toUTF8.toList
  let high := (String.singleton last).toUTF8.toList
  if first = last then low.map fun b => (b, b)
  else
    low.dropLast.map (fun b => (b, b)) ++
      [(low.getLast?.getD 0, high.head?.getD 0)] ++ (high.drop 1).map fun b => (b, b)

/-- How far a set has been read. -/
structure SetDraft where
  /-- The ranges so far, the last one first. -/
  ranges : List (Char × Char)
  /-- Whether a hyphen waits for the end of its range. -/
  pending : Bool

/-- Reads one more character of a set; a range must not run backwards. -/
def SetDraft.add? (draft : SetDraft) (c : Char) : Option SetDraft :=
  match draft.pending, draft.ranges with
  | true, (first, _) :: rest =>
    if c < first then none else some ⟨(first, c) :: rest, false⟩
  | _, [] => some ⟨[(c, c)], false⟩
  | _, ranges => if c = '-' then some ⟨ranges, true⟩ else some ⟨(c, c) :: ranges, false⟩

/-- The ranges of a set that is closed; a hyphen that still waits stands for itself. -/
def SetDraft.close (draft : SetDraft) : List (Char × Char) :=
  (if draft.pending then ('-', '-') :: draft.ranges else draft.ranges).reverse

/-- What comes of reading a set. -/
inductive SetResult where
  | closed (ranges : List (Char × Char)) (rest : List Char)
  | unclosed
  | faulty

/-- Reads a set up to its closing bracket; a bracket that comes first is a member. -/
def readSet (draft : SetDraft) (first : Bool) : List Char → SetResult
  | [] => .unclosed
  | c :: rest =>
    if c = ']' && !first then .closed draft.close rest
    else match draft.add? c with
      | some draft => readSet draft false rest
      | none => .faulty

/-- How far a pattern has been read. -/
structure Draft where
  /-- The steps of the branch that is being read, the last one first. -/
  branch : List GlobStep
  /-- For each open brace, the innermost first: the finished branches, the last one first,
  and the steps before the brace, the last one first. -/
  openBraces : List (List (List GlobStep) × List GlobStep)
  /-- The character before the next one. -/
  before : Option Char
  /-- Whether a bracket without its counterpart was met; from there on brackets stand for
  themselves. -/
  bracketsPlain : Bool

/-- A draft with further steps, which end with the character `c` of the pattern. -/
def Draft.push (draft : Draft) (steps : List GlobStep) (c : Char) : Draft :=
  { draft with branch := steps.reverse ++ draft.branch, before := some c }

/-- Reads `**` behind its second star. -/
def readStars (draft : Draft) (rest : List Char) : Draft × List Char :=
  let plain := (draft.push [.anyBytes, .anyBytes] '*', rest)
  let inBraces := !draft.openBraces.isEmpty
  if draft.branch.isEmpty then
    match rest with
    | [] => (draft.push [.leadingDirectories] '*', [])
    | '/' :: rest => (draft.push [.leadingDirectories] '/', rest)
    | _ => plain
  else if draft.before ≠ some '/' then plain
  else
    -- the step before is a slash, or other stars with their slashes
    let replaceLast (step : GlobStep) (c : Char) :=
      match draft.branch with
      | .leadingDirectories :: _ => { draft with before := some c }
      | .trailingDirectories :: _ => { draft with before := some c }
      | _ => { draft with branch := step :: draft.branch.drop 1, before := some c }
    match rest with
    | [] => (replaceLast .trailingDirectories '*', [])
    | '/' :: rest => (replaceLast .innerDirectories '/', rest)
    | c :: _ =>
      if inBraces && (c = ',' || c = '\x7d') then (replaceLast .trailingDirectories '*', rest)
      else plain

/-- Reads a set behind its opening bracket. Without a closing bracket the opening one
stands for itself. -/
def readBracket? (draft : Draft) (rest : List Char) : Option (Draft × List Char) :=
  let negated := rest.head? = some '!' || rest.head? = some '^'
  match readSet ⟨[], false⟩ true (if negated then rest.drop 1 else rest) with
  | .closed ranges rest =>
    let bytes := ranges.flatMap fun (first, last) => byteRanges first last
    some (draft.push [.oneOf negated bytes] ']', rest)
  | .unclosed => some ({ draft.push (literal '[') '[' with bracketsPlain := true }, rest)
  | .faulty => none

/-- Reads a pattern to its end; `steps` bounds the number of characters. -/
def readFrom? : Nat → Draft → List Char → Option Draft
  | 0, _, _ => none
  | _, draft, [] => some draft
  | steps + 1, draft, c :: rest =>
    match c, rest, draft.openBraces with
    | '?', _, _ => readFrom? steps (draft.push [.anyByte] c) rest
    | '*', '*' :: rest, _ =>
      let (draft, rest) := readStars draft rest
      readFrom? steps draft rest
    | '*', _, _ => readFrom? steps (draft.push [.anyBytes] c) rest
    | '[', _, _ =>
      if draft.bracketsPlain then readFrom? steps (draft.push (literal c) c) rest
      else (readBracket? draft rest).bind fun (draft, rest) => readFrom? steps draft rest
    | '\x7b', _, _ =>
      readFrom? steps
        { draft with branch := [], openBraces := ([], draft.branch) :: draft.openBraces,
                     before := some c } rest
    | '\x7d', _, (branches, outer) :: openBraces =>
      let group := GlobStep.alternatives (draft.branch.reverse :: branches).reverse
      readFrom? steps
        { draft with branch := group :: outer, openBraces, before := some c } rest
    | '\x7d', _, [] => none
    | ',', _, (branches, outer) :: openBraces =>
      readFrom? steps
        { draft with branch := []
                     openBraces := (draft.branch.reverse :: branches, outer) :: openBraces
                     before := some c } rest
    | '\\', d :: rest, _ => readFrom? steps (draft.push (literal d) d) rest
    | '\\', [], _ => none
    | _, _, _ => readFrom? steps (draft.push (literal c) c) rest

/-- Reads a pattern; its braces must be closed. -/
def parse? (cs : List Char) : Option IgnoreGlob :=
  (readFrom? (cs.length + 1) ⟨[], [], none, false⟩ cs).bind fun draft =>
    if draft.openBraces.isEmpty then some draft.branch.reverse else none

end IgnoreGlob

end DebtGauge
