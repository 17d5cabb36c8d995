import DebtGauge.FilePath.Basic

/-!
# Glob patterns for paths

Include and ignore patterns. `?` stands for any one character, `*` for any characters,
slashes included, and `**` for any directories; `[...]` is one character of a set and
`[!...]` one outside of it. A `**` must fill a whole component of the pattern. A dot at
the start of a name is a character like any other.

Main definitions:

* `Glob.parse` — reads a pattern, or says where it is at fault;
* `Glob.matchesPath` — whether a pattern matches the whole text of a path.
-/

namespace DebtGauge.Glob

/-- What is wrong with a pattern. -/
inductive Fault where
  | unclosedSet
  | tooManyStars
  | starsInsideComponent
deriving DecidableEq

/-- What is wrong with a pattern, and near which of its characters. -/
structure Problem where
  position : Nat
  fault : Fault
deriving DecidableEq

/-- The text of a fault. -/
def Fault.text : Fault → String
  | .unclosedSet => "invalid range pattern"
  | .tooManyStars => "wildcards are either regular `*` or recursive `**`"
  | .starsInsideComponent => "recursive wildcards must form a single path component"

/-- The text of a problem. -/
def Problem.message (problem : Problem) : String :=
  s!"Pattern syntax error near position {problem.position}: {problem.fault.text}"

/-- Characters that a set of a pattern names: one of them, or all from one to another. -/
inductive Member where
  | single (c : Char)
  | range (first last : Char)
deriving DecidableEq

/-- A step of a pattern. -/
inductive Token where
  | char (c : Char)
  | anyChar
  | within (members : List Member)
  | except (members : List Member)
  | sequence
  | directories
deriving DecidableEq

/-- A pattern is a sequence of steps. -/
abbrev Pattern := List Token

/-- Whether a character belongs to a set. -/
def holds (members : List Member) (c : Char) : Bool :=
  members.any fun
    | .single d => c = d
    | .range first last => first ≤ c && c ≤ last

/-- The members of a set, from the characters between its brackets. -/
def parseMembers : List Char → List Member
  | first :: '-' :: last :: rest => .range first last :: parseMembers rest
  | c :: rest => .single c :: parseMembers rest
  | [] => []

/-- Reads a set behind its opening bracket: its step, the number of characters read, and
what follows. The first character of a set is a member even if it is a bracket. -/
def parseSet? (cs : List Char) : Option (Token × Nat × List Char) :=
  let negated := cs.head? = some '!'
  let body := if negated then cs.drop 1 else cs
  let tail := (body.drop 1).dropWhile (· ≠ ']')
  if tail.isEmpty then none
  else
    let members := parseMembers (body.take (body.length - tail.length))
    let rest := tail.drop 1
    some (if negated then .except members else .within members, cs.length - rest.length, rest)

/-- Puts a step in front of a pattern; one `**` behind another adds nothing. -/
def addToken : Token → Pattern → Pattern
  | .directories, .directories :: rest => .directories :: rest
  | token, rest => token :: rest

/-- Reads a pattern from position `position` on, behind the character `before`. Each step
reads at least one character, so `steps` need not exceed their number. -/
def parseFrom : Nat → Nat → Option Char → List Char → Except Problem Pattern
  | 0, _, _, _ => .ok []
  | _, _, _, [] => .ok []
  | steps + 1, position, _, '?' :: rest =>
    (addToken .anyChar ·) <$> parseFrom steps (position + 1) (some '?') rest
  | steps + 1, position, before, '*' :: rest =>
    match rest with
    | '*' :: '*' :: _ => .error ⟨position + 2, .tooManyStars⟩
    | '*' :: rest =>
      if before.any (· ≠ '/') then .error ⟨position - 1, .starsInsideComponent⟩
      else match rest with
        | [] => .ok [.directories]
        | '/' :: rest =>
          (addToken .directories ·) <$> parseFrom steps (position + 3) (some '/') rest
        | _ => .error ⟨position + 2, .starsInsideComponent⟩
    | rest => (addToken .sequence ·) <$> parseFrom steps (position + 1) (some '*') rest
  | steps + 1, position, _, '[' :: rest =>
    match parseSet? rest with
    | none => .error ⟨position, .unclosedSet⟩
    | some (token, read, rest) =>
      (addToken token ·) <$> parseFrom steps (position + 1 + read) (some ']') rest
  | steps + 1, position, _, c :: rest =>
    (addToken (.char c) ·) <$> parseFrom steps (position + 1) (some c) rest

/-- Reads a pattern. -/
def parse (text : String) : Except Problem Pattern :=
  parseFrom text.length 0 none text.toList

/-- How a match of steps against a text ends: it succeeds, it fails here, or it fails
because the text is too short, and then it fails for every shorter rest as well. -/
inductive Outcome where
  | matched
  | failed
  | exhausted
deriving DecidableEq

/-- Whether a step that stands for one character allows this one. -/
def Token.allows (c : Char) : Token → Bool
  | .char d => c = d
  | .anyChar => true
  | .within members => holds members c
  | .except members => !holds members c
  | .sequence | .directories => false

/-- Lets a `*` or `**` take one character after the other and tries the rest of the
pattern each time; a `**` stops only behind slashes, and at the end of the text. -/
def stretch (onlyDirectories : Bool) (rest : List Char → Outcome) : List Char → Outcome
  | [] => rest []
  | c :: cs =>
    if onlyDirectories && c ≠ '/' then stretch onlyDirectories rest cs
    else match rest cs with
      | .failed => stretch onlyDirectories rest cs
      | outcome => outcome

/-- Matches the steps of a pattern against a whole text. -/
def run : Pattern → List Char → Outcome
  | [], [] => .matched
  | [], _ :: _ => .failed
  | .sequence :: rest, cs =>
    match run rest cs with
    | .failed => stretch false (run rest) cs
    | outcome => outcome
  | .directories :: rest, cs =>
    match run rest cs with
    | .failed => stretch true (run rest) cs
    | outcome => outcome
  | _ :: _, [] => .exhausted
  | token :: rest, c :: cs => if token.allows c then run rest cs else .failed

/-- Whether a pattern matches the whole text of a path. -/
def matchesPath (pattern : Pattern) (path : FilePath) : Bool :=
  run pattern path.text.toList = .matched

end DebtGauge.Glob
