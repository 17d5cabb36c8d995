import DebtGauge.Settings.Basic

/-!
# Options of a run

What one analysis looks at and what it evaluates. Options start from the settings of the
project; a command line may change them.

Main definitions:

* `RunOptions` — the options;
* `RunOptions.ofSettings` — the options of a run without further wishes.
-/

namespace DebtGauge

/-- What a run looks at, what it evaluates, and how. -/
structure RunOptions where
  /-- The file or directory that is analysed. -/
  path : FilePath
  selection : FileSelection
  weights : Weights
  /-- The rules to evaluate, in the order of the report. -/
  rules : List Rule
  /-- Whether files may be worked on side by side. The report does not depend on it. -/
  parallel : Bool
  /-- Whether no progress is shown. -/
  quiet : Bool

/-- The options of a run with given settings: all rules, and no progress. -/
def RunOptions.ofSettings (path : FilePath) (settings : Settings) : RunOptions where
  path := path
  selection := settings.selection
  weights := settings.weights
  rules := Rule.all
  parallel := settings.parallel
  quiet := true

end DebtGauge
