import DebtGauge.Failure
import DebtGauge.Source

/-!
# Metrics

A metric is one measurement of a file. Its path is never empty and its value is a finite
number; both are checked when it is made.

Main definitions:

* `Metric` — a measurement;
* `Metric.create` — makes one, or says what is wrong with it.
-/

namespace DebtGauge

/-- One measurement of a file, with the span and the label it belongs to. -/
structure Metric where
  kind : MetricKind
  value : Float
  path : FilePath
  location : Option Location
  context : Option String
  path_ne : path.text ≠ ""
  value_finite : value.isFinite = true

namespace Metric

/-- A measurement of a file. -/
def create (kind : MetricKind) (value : Float) (path : FilePath)
    (location : Option Location) (context : Option String) : Except Failure Metric :=
  if path_ne : path.text ≠ "" then
    if value_finite : value.isFinite = true then
      .ok { kind, value, path, location, context, path_ne, value_finite }
    else .error (.improperValue kind value)
  else .error (.missingField .filePath)

/-- The label of a metric, or `fallback` if it has none. -/
def contextOr (fallback : String) (metric : Metric) : String :=
  metric.context.getD fallback

end Metric

end DebtGauge
