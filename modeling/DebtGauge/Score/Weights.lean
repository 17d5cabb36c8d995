import DebtGauge.Decimal.Reader
import DebtGauge.Failure
import DebtGauge.Text.Blank
import DebtGauge.Text.Lines

/-!
# Weights of the categories

How much each category counts in the overall score. Weights are relative; they must be
finite and not negative. Overrides such as `complexity=0.4` are applied one by one, so
those before a faulty one stay in force.

Main definitions:

* `Weights` — a weight for each rule;
* `Weights.validate` — the first improper weight;
* `Weights.parseOverride`, `Weights.applyOverrides` — overrides.
-/

namespace DebtGauge

/-- A weight for each rule. -/
structure Weights where
  complexity : Float
  size : Float
  typeSafety : Float
  duplication : Float
  circularDependency : Float

namespace Weights

/-- The weights of a project without settings. -/
def standard : Weights where
  complexity := 0.30
  size := 0.25
  typeSafety := 0.20
  duplication := 0.15
  circularDependency := 0.10

/-- The weight of a rule. -/
def get (weights : Weights) : Rule → Float
  | .complexity => weights.complexity
  | .size => weights.size
  | .typeSafety => weights.typeSafety
  | .duplication => weights.duplication
  | .circularDependency => weights.circularDependency

/-- The weights with another weight for one rule. -/
def set (weights : Weights) (rule : Rule) (weight : Float) : Weights :=
  match rule with
  | .complexity => { weights with complexity := weight }
  | .size => { weights with size := weight }
  | .typeSafety => { weights with typeSafety := weight }
  | .duplication => { weights with duplication := weight }
  | .circularDependency => { weights with circularDependency := weight }

theorem get_set (weights : Weights) (rule other : Rule) (weight : Float) :
    (weights.set rule weight).get other = if other = rule then weight else weights.get other := by
  cases rule <;> cases other <;> rfl

/-- A proper weight is finite and not negative. -/
def isProper (weight : Float) : Bool :=
  weight.isFinite && 0.0 ≤ weight

/-- Fails on the first rule whose weight is improper. -/
def validate (weights : Weights) : Except Failure Unit :=
  match Rule.all.find? fun rule => !isProper (weights.get rule) with
  | some rule => .error (.settings (.improperWeight rule (weights.get rule)))
  | none => .ok ()

/-- The texts before and behind the first equals sign. -/
def splitAssignment? (entry : String) : Option (String × String) :=
  let cs := entry.toList
  match cs.dropWhile (· ≠ '=') with
  | [] => none
  | _ :: value => some (String.ofList (cs.takeWhile (· ≠ '=')), String.ofList value)

/-- Reads an override: a rule and its weight, with an equals sign between them. -/
def parseOverride (entry : String) : Except Failure (Rule × Float) :=
  match splitAssignment? entry with
  | none => .error (.settings (.notAnAssignment entry))
  | some (key, value) =>
    match Rule.ofId? (Text.trim key) with
    | none => .error (.settings (.unknownCategory (Text.trim key)))
    | some rule =>
      match Decimal.readDouble? (Text.trim value) with
      | none => .error (.settings (.unreadableWeight (Text.trim value) rule))
      | some weight =>
        if isProper weight then .ok (rule, weight)
        else .error (.settings (.improperWeight rule weight))

/-- Applies overrides up to the first faulty one: the weights then, and whether all of
them were applied and all weights are proper. -/
def applyOverrides (weights : Weights) : List String → Weights × Except Failure Unit
  | [] => (weights, weights.validate)
  | entry :: entries =>
    match parseOverride entry with
    | .ok (rule, weight) => (weights.set rule weight).applyOverrides entries
    | .error failure => (weights, .error failure)

end Weights

end DebtGauge
