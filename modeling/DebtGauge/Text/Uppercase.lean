import DebtGauge.Text.Uppercase.Table

/-!
# Upper case

The upper case of a text is that of its characters one by one, without regard to their
neighbours. A character may turn into several, as `ß` does.

Main definitions:

* `upperChar` — the upper case of a character;
* `upper` — the upper case of a text.
-/

namespace DebtGauge.Text

/-- Whether a run holds a code point. -/
def UpperRun.holds (run : UpperRun) (code : Nat) : Bool :=
  run.first ≤ code && code ≤ run.last && (code - run.first) % run.step == 0

/-- The upper case of a character; a character without one is its own. -/
def upperChar (c : Char) : List Char :=
  match upperSequences.lookup c.toNat with
  | some codes => codes.map Char.ofNat
  | none =>
    match upperRuns.find? (·.holds c.toNat) with
    | some run => [Char.ofNat (c.toNat + run.shift).toNat]
    | none => [c]

/-- The upper case of a text. -/
def upper (text : String) : String :=
  String.ofList (text.toList.flatMap upperChar)

end DebtGauge.Text
