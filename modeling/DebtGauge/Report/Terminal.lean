import DebtGauge.Decimal.Fixed
import DebtGauge.Report.Basic
import DebtGauge.Text.Styled
import DebtGauge.Text.Uppercase

/-!
# Reports for a terminal

A header with the overall score, a line for each category, a section for each category
with findings, and the warnings and notes of the run. A section shows its gravest
findings and says how many more there are.

Main definitions:

* `Section`, `Report.sections` — the findings of a category, the gravest first;
* `Report.terminalText` — the whole text.
-/

namespace DebtGauge

open DebtGauge.Text (Style)

/-- How many findings of a section are shown. -/
def shownFindings : Nat := 5

/-- The findings of one category, the gravest first. -/
structure Section where
  category : String
  findings : List Finding

namespace Section

/-- The findings that are shown. -/
def shown (sec : Section) : List Finding :=
  sec.findings.take shownFindings

/-- The number of findings that are not shown. -/
def omitted (sec : Section) : Nat :=
  sec.findings.length - shownFindings

end Section

/-- Findings in the order of falling severity; within a severity their order stays. -/
def Finding.sortBySeverity (findings : List Finding) : List Finding :=
  findings.mergeSort fun a b => b.severity.rank ≤ a.severity.rank

/-- The section of a category. -/
def Report.sectionOf (report : Report) (category : String) : Section :=
  ⟨category, Finding.sortBySeverity (report.findingsFor category)⟩

/-- The sections of a report: one for each category that has findings. -/
def Report.sections (report : Report) : List Section :=
  (report.score.categories.map fun category => report.sectionOf category.name).filter
    (!·.findings.isEmpty)

/-! ## Lines -/

/-- A text filled up with blanks behind it. -/
def padRight (width : Nat) (text : String) : String :=
  text.pushn ' ' (width - text.length)

/-- A text filled up with blanks in front of it. -/
def padLeft (width : Nat) (text : String) : String :=
  "".pushn ' ' (width - text.length) ++ text

/-- The colour of a score. -/
def scoreColour (score : Float) : Text.Colour :=
  if 80.0 ≤ score then .green else if 50.0 ≤ score then .yellow else .red

/-- A score with two places. -/
def scoreText (score : Float) : String :=
  Decimal.fixedText 2 score

/-- The style of a severity's label. -/
def Severity.style : Severity → Style
  | .high => { bold := true, colour := some .red }
  | .medium => { colour := some .yellow }
  | .low => {}

/-- The label of a severity. -/
def Severity.label (severity : Severity) : String :=
  "[" ++ Text.upper severity.name ++ "]"

/-- The lines of the header. -/
def Report.headerLines (report : Report) (styled : Bool) : List String :=
  let divider := Style.apply { colour := some .blue } styled ("".pushn '═' 50)
  let title := Style.apply { bold := true, colour := some .blue } styled
    "           DEBTSCORE ANALYSIS REPORT"
  let overall := Style.apply { bold := true, colour := some (scoreColour report.score.overall) }
    styled (scoreText report.score.overall)
  let summary := report.summary
  [divider, title, divider, "", "Overall score: " ++ overall,
    s!"Files: {summary.filesAnalyzed} analyzed, {summary.filesParsed} parsed" ++
      s!"  ·  Findings: {report.findings.length}  ·  {summary.elapsedMilliseconds} ms",
    ""]

/-- The line of a category. -/
def CategoryScore.line (category : CategoryScore) (styled : Bool) : String :=
  let score := Style.apply { colour := some (scoreColour category.score) } styled
    (padLeft 7 (scoreText category.score))
  "  " ++ padRight 22 category.name ++ " " ++ score ++
    s!"  (weight {Decimal.fixedText 2 category.weight})"

/-- The lines of the categories. -/
def Report.categoryLines (report : Report) (styled : Bool) : List String :=
  Style.apply { bold := true } styled "CATEGORIES" ::
    (report.score.categories.map (·.line styled) ++ [""])

/-- The lines of a finding: what it is and where, and what to do about it. -/
def Finding.lines (finding : Finding) (styled : Bool) : List String :=
  let label := finding.severity.style.apply styled finding.severity.label
  let place := Style.apply { dimmed := true } styled finding.place
  s!"  {label} {place} {finding.message}" ::
    finding.suggestion.toList.map fun suggestion =>
      "      → " ++ Style.apply { italic := true } styled suggestion

/-- The lines of a section. -/
def Section.lines (sec : Section) (styled : Bool) : List String :=
  let heading := Style.apply { bold := true } styled (Text.upper sec.category)
  s!"{heading} ({sec.findings.length})" ::
    (sec.shown.flatMap (·.lines styled) ++
      (if 0 < sec.omitted then [s!"  … and {sec.omitted} more"] else []) ++ [""])

/-- The lines of the findings. -/
def Report.findingLines (report : Report) (styled : Bool) : List String :=
  if report.findings.isEmpty then [Style.apply { colour := some .green } styled "✓ No findings"]
  else report.sections.flatMap (·.lines styled)

/-- The lines of the warnings and notes. -/
def Report.noteLines (report : Report) (styled : Bool) : List String :=
  let warning := Style.apply { bold := true, colour := some .yellow } styled "warning:"
  let note := Style.apply { bold := true, colour := some .cyan } styled "note:"
  report.summary.warnings.map (fun text => s!"{warning} {text}") ++
    report.summary.notes.map fun text => s!"{note} {text}"

/-- All lines of a report. -/
def Report.terminalLines (report : Report) (styled : Bool) : List String :=
  report.headerLines styled ++ report.categoryLines styled ++ report.findingLines styled ++
    report.noteLines styled

/-- The text of a report for a terminal. -/
def Report.terminalText (report : Report) (styled : Bool) : String :=
  String.join ((report.terminalLines styled).map (· ++ "\n"))

/-! ## Formats -/

/-- The format of a written report. -/
inductive ReportFormat where
  | json
  | terminal
deriving DecidableEq

/-- The name of a format. -/
def ReportFormat.name : ReportFormat → String
  | json => "json"
  | terminal => "terminal"

/-- The format with a given name. -/
def ReportFormat.ofName? (text : String) : Option ReportFormat :=
  [json, terminal].find? (·.name = text)

end DebtGauge
