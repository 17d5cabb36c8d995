/-!
# Styled text

A style is written as an escape sequence in front of a text and a reset behind it. A
reset that stands inside the text already is followed by the opening sequence again, so
the style goes on behind it. A text without any style gets no sequences.

Main definitions:

* `Style` — bold, dimmed, italic and a foreground colour;
* `Style.apply` — a text in a style, or as it is where styles are switched off.
-/

namespace DebtGauge.Text

/-- A foreground colour. -/
inductive Colour where
  | red
  | green
  | yellow
  | blue
  | cyan
deriving DecidableEq

/-- The code of a foreground colour. -/
def Colour.code : Colour → String
  | .red => "31"
  | .green => "32"
  | .yellow => "33"
  | .blue => "34"
  | .cyan => "36"

/-- How a text is set off. -/
structure Style where
  bold : Bool := false
  dimmed : Bool := false
  italic : Bool := false
  colour : Option Colour := none
deriving DecidableEq

/-- The codes of a style: its weights and slants, then its colour. -/
def Style.codes (style : Style) : List String :=
  (if style.bold then ["1"] else []) ++ (if style.dimmed then ["2"] else []) ++
    (if style.italic then ["3"] else []) ++ style.colour.toList.map Colour.code

/-- The escape sequence with the given codes. -/
def escapeSequence (codes : List String) : List Char :=
  '\x1b' :: '[' :: (";".intercalate codes).toList ++ ['m']

/-- The sequence that ends every style. -/
def resetSequence : List Char := escapeSequence ["0"]

/-- Repeats `opening` behind each reset; `skip` characters belong to a reset already
seen. -/
def reopenAfter (opening : List Char) : Nat → List Char → List Char
  | _, [] => []
  | skip + 1, c :: cs =>
    c :: if skip = 0 then opening ++ reopenAfter opening skip cs
      else reopenAfter opening skip cs
  | 0, c :: cs =>
    if resetSequence.isPrefixOf (c :: cs) then
      c :: reopenAfter opening (resetSequence.length - 1) cs
    else c :: reopenAfter opening 0 cs

/-- A text in a style. -/
def Style.apply (style : Style) (enabled : Bool) (text : String) : String :=
  if !enabled || style.codes.isEmpty then text
  else
    let opening := escapeSequence style.codes
    String.ofList (opening ++ reopenAfter opening 0 text.toList ++ resetSequence)

end DebtGauge.Text
