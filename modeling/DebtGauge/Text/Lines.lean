/-!
# Lines of a text

A line ends at a line feed or at the end of the text. A line feed that is the last
character ends the last line and opens no further one, so the empty text has no line.

Main definitions:

* `splitOn` — the pieces between the occurrences of one character, or of one byte;
* `lineCount` — how many lines a text has;
* `lines` — the lines themselves, without their line ends.
-/

namespace DebtGauge.Text

/-- The pieces between the occurrences of `sep`; always one more than there are
occurrences. -/
def splitOn [DecidableEq α] (sep : α) : List α → List (List α)
  | [] => [[]]
  | c :: cs =>
    if c = sep then [] :: splitOn sep cs
    else match splitOn sep cs with
      | [] => [[c]]
      | piece :: rest => (c :: piece) :: rest

/-- The number of lines: the line feeds, and one more if text follows the last of them. -/
def lineCount (cs : List Char) : Nat :=
  cs.count '\n' + if cs.getLast?.any (· ≠ '\n') then 1 else 0

/-- A line without the carriage return that belongs to its line end. -/
def dropCarriageReturn (line : List Char) : List Char :=
  if line.getLast? = some '\r' then line.dropLast else line

/-- The lines of a text; a line ends with a line feed or with a carriage return and a
line feed, and a last line without a line feed keeps its carriage return. -/
def lines (cs : List Char) : List (List Char) :=
  match (splitOn '\n' cs).reverse with
  | [] => []
  | [] :: init => init.reverse.map dropCarriageReturn
  | last :: init => init.reverse.map dropCarriageReturn ++ [last]

theorem splitOn_ne_nil [DecidableEq α] (sep : α) (cs : List α) : splitOn sep cs ≠ [] := by
  cases cs with
  | nil => simp [splitOn]
  | cons c cs =>
    simp only [splitOn]
    split
    · simp
    · split <;> simp

end DebtGauge.Text
