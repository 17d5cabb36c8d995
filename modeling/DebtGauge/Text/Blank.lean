/-!
# Blank characters and words

The blank characters are the code points that Unicode lists under the property
`White_Space`. Trimming, and the collapsing of white space in a normalised code block,
both rest on this one class.

Main definitions:

* `isBlank` — membership in `White_Space`;
* `trim` — a text without the blanks at its two ends;
* `words` — the maximal runs of characters that are not blank.
-/

namespace DebtGauge.Text

/-- The code points of Unicode's `White_Space`, as closed ranges in increasing order. -/
def blankRanges : List (Nat × Nat) :=
  [(0x09, 0x0D), (0x20, 0x20), (0x85, 0x85), (0xA0, 0xA0), (0x1680, 0x1680),
   (0x2000, 0x200A), (0x2028, 0x2029), (0x202F, 0x202F), (0x205F, 0x205F), (0x3000, 0x3000)]

/-- A character is blank if one of the ranges holds its code point. -/
def isBlank (c : Char) : Bool :=
  blankRanges.any fun r => r.1 ≤ c.toNat && c.toNat ≤ r.2

/-- A text without the blanks at its start and at its end. -/
def trimChars (cs : List Char) : List Char :=
  ((cs.dropWhile isBlank).reverse.dropWhile isBlank).reverse

@[inherit_doc trimChars]
def trim (s : String) : String :=
  String.ofList (trimChars s.toList)

/-- A text is blank if it holds nothing but blanks; the empty text is. -/
def isAllBlank (s : String) : Bool :=
  s.toList.all isBlank

/-- One more character in front of a text whose words are `run` (the word it starts
with, empty if it starts with a blank) followed by `rest`. -/
def wordStep (c : Char) : List Char × List (List Char) → List Char × List (List Char)
  | (run, rest) =>
    if isBlank c then ([], if run.isEmpty then rest else run :: rest) else (c :: run, rest)

/-- The maximal runs of characters that are not blank, from left to right. -/
def words (cs : List Char) : List (List Char) :=
  match cs.foldr wordStep ([], []) with
  | (run, rest) => if run.isEmpty then rest else run :: rest

theorem isBlank_space : isBlank ' ' = true := by decide

end DebtGauge.Text
