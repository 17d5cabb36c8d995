import DebtGauge.Discovery.Selection
import DebtGauge.Score.Weights

/-!
# Settings of a project

Main definitions:

* `Settings` — which files are looked at, how much each category counts, and whether
  files may be worked on side by side;
* `Settings.standard` — the settings of a project without a settings file;
* `Settings.template` — a settings file that spells the standard settings out.
-/

namespace DebtGauge

/-- The settings of a project. -/
structure Settings where
  selection : FileSelection
  weights : Weights
  parallel : Bool

namespace Settings

/-- The settings of a project without a settings file. -/
def standard : Settings where
  selection := .standard
  weights := .standard
  parallel := true

/-- The name of settings files. -/
def fileName : String := ".debtscore.toml"

/-- The lines of a list of patterns in a settings file. -/
def patternLines (name : String) (patterns : List String) : List String :=
  s!"{name} = [" :: patterns.map (fun pattern => s!"    \"{pattern}\",") ++ ["]"]

/-- The text of a settings file that spells the standard settings out. -/
def template : String :=
  let lines :=
    ["# Debtscore Configuration", "", "[scan]"] ++
      patternLines "include" FileSelection.standard.included ++
      patternLines "ignore" FileSelection.standard.ignored ++
      ["", "# Relative weight of each category in the overall score.",
       "# Weights are rescaled to sum to 1.0.", "[weights]"] ++
      Rule.all.map (fun rule =>
        s!"{rule.id} = {Decimal.fixedText 2 (Weights.standard.get rule)}") ++
      ["", "[analysis]", "parallel = true"]
  String.join (lines.map (· ++ "\n"))

end Settings

end DebtGauge
