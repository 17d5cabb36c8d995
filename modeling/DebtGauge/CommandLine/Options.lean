import DebtGauge.CommandFailure
import DebtGauge.CommandLine.Basic
import DebtGauge.Run.Options

/-!
# From a command line to options

What is given on a command line takes precedence over the settings of the project.

Main definitions:

* `AnalyzeArguments.options` — the options of the run that a command line asks for.
-/

namespace DebtGauge.CommandLine

/-- The rule with a given identifier, blanks around it aside. -/
def readRule (text : String) : Except CommandFailure Rule :=
  match Rule.ofId? (Text.trim text) with
  | some rule => .ok rule
  | none => .error (.unknownRule (Text.trim text))

/-- Weights with overrides applied, if any are given; then all of them must be proper. -/
def overrideWeights (weights : Weights) : Option (List String) → Except CommandFailure Weights
  | none => .ok weights
  | some entries =>
    match weights.applyOverrides entries with
    | (changed, .ok ()) => .ok changed
    | (_, .error failure) => .error (.plain failure)

/-- The rules with given identifiers, if any are given. -/
def chooseRules (rules : List Rule) : Option (List String) → Except CommandFailure (List Rule)
  | none => .ok rules
  | some names => names.mapM readRule

/-- The options of the run that a command line asks for. -/
def AnalyzeArguments.options (arguments : AnalyzeArguments) (settings : Settings) :
    Except CommandFailure RunOptions := do
  let options := RunOptions.ofSettings arguments.path settings
  let selection : FileSelection :=
    { included := arguments.included.getD options.selection.included
      ignored := arguments.ignored.getD options.selection.ignored }
  let weights ← overrideWeights options.weights arguments.weights
  let rules ← chooseRules options.rules arguments.rules
  return { options with
    selection, weights, rules
    parallel := options.parallel && !arguments.noParallel
    quiet := arguments.quiet }

end DebtGauge.CommandLine
