import DebtGauge.Report.Json
import DebtGauge.Report.Terminal

/-!
# Written reports

The text of a report in either format.
-/

namespace DebtGauge

/-- The text of a report; only a terminal's text is ever styled. -/
def Report.text (report : Report) (format : ReportFormat) (styled : Bool) : String :=
  match format with
  | .json => report.jsonText
  | .terminal => report.terminalText styled

end DebtGauge
