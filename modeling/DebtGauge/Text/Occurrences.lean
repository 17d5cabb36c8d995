/-!
# Occurrences of a word

Occurrences are counted from left to right, and the search goes on behind each of them,
so occurrences never overlap. Only ASCII letters have two cases here.

Main definitions:

* `occurrences` — the number of occurrences of a word;
* `asciiUpper` — a text in ASCII upper case.
-/

namespace DebtGauge.Text

/-- Counts occurrences of `word` behind the next `skip` characters. -/
def occurrencesAfter (word : List Char) : Nat → List Char → Nat
  | _, [] => 0
  | skip + 1, _ :: cs => occurrencesAfter word skip cs
  | 0, c :: cs =>
    if word.isPrefixOf (c :: cs) then occurrencesAfter word (word.length - 1) cs + 1
    else occurrencesAfter word 0 cs

/-- The number of occurrences of a word in a text, none overlapping another. -/
def occurrences (word : String) (cs : List Char) : Nat :=
  occurrencesAfter word.toList 0 cs

/-- A text with its ASCII letters in upper case. -/
def asciiUpper (cs : List Char) : List Char :=
  cs.map Char.toUpper

end DebtGauge.Text
