import DebtGauge.Instant.Rfc3339
import DebtGauge.Json.Reader
import DebtGauge.Json.Writer
import DebtGauge.Metric
import DebtGauge.Report.Basic

/-!
# Reports as JSON

How metrics, findings and reports are written as JSON values, and how reports are read
from them. Optional fields without a value are left out when a record is written. When
one is read they may be missing or null, fields of other names are ignored, and no field of
the record may be given twice. A record may also be given as the list of its fields' values.

Main definitions:

* `Report.toJson`, `Report.jsonText` — a report as a value, and as the text of a file;
* `Report.ofJson?` — the report that a value describes.
-/

namespace DebtGauge

/-! ## Writing -/

/-- A field that is left out if it has no value. -/
def optionalField (name : String) (write : α → Json) (value : Option α) :
    List (String × Json) :=
  value.toList.map fun value => (name, write value)

/-- A span as a record. -/
def Location.toJson (location : Location) : Json :=
  .object [("start_line", .nat location.startLine), ("end_line", .nat location.endLine),
    ("start_column", .nat location.startColumn), ("end_column", .nat location.endColumn)]

/-- A metric as a record. -/
def Metric.toJson (metric : Metric) : Json :=
  .object <|
    [("name", .string metric.kind.name), ("value", .real metric.value),
      ("file_path", .string metric.path.text)] ++
    optionalField "location" Location.toJson metric.location ++
    optionalField "context" .string metric.context

/-- A finding as a record. -/
def Finding.toJson (finding : Finding) : Json :=
  .object <|
    [("rule_id", .string finding.ruleId), ("severity", .string finding.severity.name),
      ("message", .string finding.message), ("file_path", .string finding.path.text)] ++
    optionalField "location" Location.toJson finding.location ++
    optionalField "suggestion" .string finding.suggestion

/-- A category's score as a record. -/
def CategoryScore.toJson (category : CategoryScore) : Json :=
  .object <|
    [("name", .string category.name), ("score", .real category.score),
      ("weight", .real category.weight)] ++
    optionalField "description" .string category.description

/-- The totals of a score as a record. -/
def ScoreTotals.toJson (totals : ScoreTotals) : Json :=
  .object [("files_analyzed", .nat totals.filesAnalyzed),
    ("total_metrics", .nat totals.totalMetrics), ("total_findings", .nat totals.totalFindings)]

/-- A score as a record. -/
def Score.toJson (score : Score) : Json :=
  .object [("overall", .real score.overall),
    ("categories", .array (score.categories.map CategoryScore.toJson)),
    ("timestamp", .string score.timestamp.text), ("metadata", score.totals.toJson)]

/-- The circumstances of a run as a record. -/
def RunSummary.toJson (summary : RunSummary) : Json :=
  .object [("files_analyzed", .nat summary.filesAnalyzed),
    ("files_parsed", .nat summary.filesParsed),
    ("elapsed_ms", .nat summary.elapsedMilliseconds),
    ("timestamp", .string summary.timestamp.text),
    ("warnings", .array (summary.warnings.map .string)),
    ("notes", .array (summary.notes.map .string))]

/-- A report as a record. -/
def Report.toJson (report : Report) : Json :=
  .object [("root", .string report.root.text), ("score", report.score.toJson),
    ("findings", .array (report.findings.map Finding.toJson)),
    ("metadata", report.summary.toJson)]

/-- The text of a report in JSON, with a line end behind it. -/
def Report.jsonText (report : Report) : String :=
  report.toJson.pretty ++ "\n"

/-! ## Reading -/

/-- The value of a field that an object may have once, if it has it. -/
def fieldOnce? (fields : List (String × Json)) (name : String) : Option (Option Json) :=
  match fields.filter (·.1 = name) with
  | [] => some none
  | [(_, value)] => some (some value)
  | _ => none

/-- The values of the given fields of a record: of an object by their names, each of which it
may have once, of a list by their places. A list must have as many items as there are names. -/
def recordValues? (names : List String) : Json → Option (List (Option Json))
  | .object fields => names.mapM (fieldOnce? fields)
  | .array items => if items.length = names.length then some (items.map some) else none
  | _ => none

/-- Reads a value that must be there. -/
def required? (read : Json → Option α) (value : Option Json) : Option α :=
  value.bind read

/-- Reads a value that may be missing or null. -/
def optional? (read : Json → Option α) : Option Json → Option (Option α)
  | none => some none
  | some value => if value.isNull then some none else (read value).map some

/-- Reads a list. -/
def listOf? (read : Json → Option α) (json : Json) : Option (List α) :=
  json.array?.bind (·.mapM read)

/-- A path as a value. -/
def FilePath.ofJson? (json : Json) : Option FilePath :=
  json.string?.map FilePath.mk

/-- A severity is given by its name, alone or as the one field of an object, with null. -/
def Severity.ofJson? : Json → Option Severity
  | .string name => Severity.ofName? name
  | .object [(name, .null)] => Severity.ofName? name
  | _ => none

/-- The instant that a value describes. -/
def Instant.ofJson? (json : Json) : Option Instant :=
  json.string?.bind Instant.read?

/-- The span that a value describes. -/
def Location.ofJson? (json : Json) : Option Location := do
  match ← recordValues? ["start_line", "end_line", "start_column", "end_column"] json with
  | [startLine, endLine, startColumn, endColumn] =>
    return { startLine := ← required? Json.nat? startLine
             endLine := ← required? Json.nat? endLine
             startColumn := ← required? Json.nat? startColumn
             endColumn := ← required? Json.nat? endColumn }
  | _ => none

/-- The finding that a value describes. -/
def Finding.ofJson? (json : Json) : Option Finding := do
  match ← recordValues?
      ["rule_id", "severity", "message", "file_path", "location", "suggestion"] json with
  | [ruleId, severity, message, path, location, suggestion] =>
    return { ruleId := ← required? Json.string? ruleId
             severity := ← required? Severity.ofJson? severity
             message := ← required? Json.string? message
             path := ← required? FilePath.ofJson? path
             location := ← optional? Location.ofJson? location
             suggestion := ← optional? Json.string? suggestion }
  | _ => none

/-- The category's score that a value describes. -/
def CategoryScore.ofJson? (json : Json) : Option CategoryScore := do
  match ← recordValues? ["name", "score", "weight", "description"] json with
  | [name, score, weight, description] =>
    return { name := ← required? Json.string? name
             score := ← required? Json.float? score
             weight := ← required? Json.float? weight
             description := ← optional? Json.string? description }
  | _ => none

/-- The totals that a value describes. -/
def ScoreTotals.ofJson? (json : Json) : Option ScoreTotals := do
  match ← recordValues? ["files_analyzed", "total_metrics", "total_findings"] json with
  | [filesAnalyzed, totalMetrics, totalFindings] =>
    return { filesAnalyzed := ← required? Json.nat? filesAnalyzed
             totalMetrics := ← required? Json.nat? totalMetrics
             totalFindings := ← required? Json.nat? totalFindings }
  | _ => none

/-- The score that a value describes. -/
def Score.ofJson? (json : Json) : Option Score := do
  match ← recordValues? ["overall", "categories", "timestamp", "metadata"] json with
  | [overall, categories, timestamp, totals] =>
    return { overall := ← required? Json.float? overall
             categories := ← required? (listOf? CategoryScore.ofJson?) categories
             timestamp := ← required? Instant.ofJson? timestamp
             totals := ← required? ScoreTotals.ofJson? totals }
  | _ => none

/-- The circumstances of a run that a value describes. -/
def RunSummary.ofJson? (json : Json) : Option RunSummary := do
  match ← recordValues?
      ["files_analyzed", "files_parsed", "elapsed_ms", "timestamp", "warnings", "notes"] json with
  | [filesAnalyzed, filesParsed, elapsedMilliseconds, timestamp, warnings, notes] =>
    return { filesAnalyzed := ← required? Json.nat? filesAnalyzed
             filesParsed := ← required? Json.nat? filesParsed
             elapsedMilliseconds := ← required? Json.nat? elapsedMilliseconds
             timestamp := ← required? Instant.ofJson? timestamp
             warnings := ← required? (listOf? Json.string?) warnings
             notes := ← required? (listOf? Json.string?) notes }
  | _ => none

/-- The report that a value describes. -/
def Report.ofJson? (json : Json) : Option Report := do
  match ← recordValues? ["root", "score", "findings", "metadata"] json with
  | [root, score, findings, summary] =>
    return { root := ← required? FilePath.ofJson? root
             score := ← required? Score.ofJson? score
             findings := ← required? (listOf? Finding.ofJson?) findings
             summary := ← required? RunSummary.ofJson? summary }
  | _ => none

end DebtGauge
