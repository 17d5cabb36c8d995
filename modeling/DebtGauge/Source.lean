import DebtGauge.Text.Lines
import DebtGauge.Text.Utf8

/-!
# Source texts

A source is the sequence of characters of a file. Positions in it count characters; the
column of a position counts the bytes since the last line feed, which is how locations
in reports are given.

Main definitions:

* `Source.slice` — the characters between two positions;
* `Point`, `Source.points` — positions with their rows and columns, one per byte;
* `Location` — a span of a source, in lines and columns that start at one.
-/

namespace DebtGauge

/-- The characters of a file. -/
structure Source where
  chars : Array Char

/-- A position of a source: the characters before it, the line feeds before it, and the
bytes since the last of those. -/
structure Point where
  offset : Nat
  row : Nat
  column : Nat
deriving DecidableEq, Inhabited

/-- A span of a source; lines and columns start at one. -/
structure Location where
  startLine : Nat
  endLine : Nat
  startColumn : Nat
  endColumn : Nat
deriving DecidableEq

namespace Location

/-- The span between two points. -/
def between (start stop : Point) : Location :=
  ⟨start.row + 1, stop.row + 1, start.column + 1, stop.column + 1⟩

/-- A span that is given by its lines alone. -/
def lines (start stop : Nat) : Location :=
  ⟨start, stop, 1, 1⟩

end Location

namespace Point

/-- The first position of every source. -/
def start : Point := ⟨0, 0, 0⟩

/-- The position behind one more character. -/
def advance (p : Point) (c : Char) : Point :=
  if c = '\n' then ⟨p.offset + 1, p.row + 1, 0⟩
  else ⟨p.offset + 1, p.row, p.column + c.utf8Size⟩

end Point

namespace Source

/-- The source with the given text. -/
def ofString (text : String) : Source :=
  ⟨text.toList.toArray⟩

/-- The number of lines. -/
def lineCount (source : Source) : Nat :=
  Text.lineCount source.chars.toList

/-- The characters from position `start` up to position `stop`. -/
def slice (source : Source) (start stop : Nat) : List Char :=
  (source.chars.extract start stop).toList

/-- The characters from `start` up to `stop`, if these are positions of the source in this
order. -/
def slice? (source : Source) (start stop : Nat) : Option (List Char) :=
  if start ≤ stop ∧ stop ≤ source.chars.size then some (source.slice start stop) else none

/-- One entry for each byte of the source, and one for its end: the position of the
character that the byte belongs to. -/
def points (source : Source) : Array Point :=
  let (table, last) := source.chars.foldl
    (fun (table, point) c =>
      (table ++ Array.replicate c.utf8Size point, point.advance c))
    (#[], Point.start)
  table.push last

end Source

end DebtGauge
