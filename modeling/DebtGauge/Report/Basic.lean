import DebtGauge.Finding
import DebtGauge.Instant.Basic

/-!
# Reports

Everything that one run of an analysis produces.

Main definitions:

* `Score` — the overall score and the scores of the categories;
* `Report` — a score with the findings behind it and the circumstances of the run;
* `Report.findingsFor` — the findings of one category.
-/

namespace DebtGauge

/-- The score of one category. -/
structure CategoryScore where
  name : String
  score : Float
  weight : Float
  description : Option String

/-- How much went into a score. -/
structure ScoreTotals where
  filesAnalyzed : Nat
  totalMetrics : Nat
  totalFindings : Nat
deriving DecidableEq

/-- The overall score of a run and the scores it is made of. -/
structure Score where
  overall : Float
  categories : List CategoryScore
  timestamp : Instant
  totals : ScoreTotals

/-- The score of the category with a given name. -/
def Score.category? (score : Score) (name : String) : Option CategoryScore :=
  score.categories.find? (·.name = name)

/-- The circumstances of a run. -/
structure RunSummary where
  /-- Files discovered, whether they are supported or not. -/
  filesAnalyzed : Nat
  /-- Files read and parsed. -/
  filesParsed : Nat
  elapsedMilliseconds : Nat
  timestamp : Instant
  /-- Files that could not be read or parsed, with the reason. -/
  warnings : List String
  notes : List String

/-- Everything that one run produces. -/
structure Report where
  root : FilePath
  score : Score
  findings : List Finding
  summary : RunSummary

/-- The findings of the rule with a given identifier, in their order. -/
def Report.findingsFor (report : Report) (ruleId : String) : List Finding :=
  report.findings.filter (·.ruleId = ruleId)

end DebtGauge
