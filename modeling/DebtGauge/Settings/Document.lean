import DebtGauge.Settings.Basic
import DebtGauge.Toml.Document

/-!
# Settings files

A settings file is a document with the tables `scan`, `weights` and `analysis`. Whatever
it leaves out keeps its standard value, and entries of other names are ignored. A table
may also be given as the list of its values, which may end early.

Main definitions:

* `Settings.ofToml?` — the settings that a document describes;
* `Settings.parse` — the settings of a text, or why it holds none.
-/

namespace DebtGauge

namespace Toml

/-- A boolean. -/
def bool? : Toml → Option Bool
  | boolean value => some value
  | _ => none

/-- A text. -/
def text? : Toml → Option String
  | string value => some value
  | _ => none

/-- A number; a whole number counts as one too if sixty-four bits hold it. -/
def number? : Toml → Option Float
  | float value => some value
  | integer (.ofNat value) =>
    if value < Nat.pow 2 64 then some (Float.ofNat value) else none
  | integer (.negSucc value) =>
    if value < Nat.pow 2 63 then some (-Float.ofNat (value + 1)) else none
  | _ => none

/-- The items of a list. -/
def items? : Toml → Option (List Toml)
  | array items | tables items => some items
  | _ => none

/-- A list of texts. -/
def texts? (value : Toml) : Option (List String) :=
  value.items?.bind (·.mapM text?)

/-- The values of the given fields of a record: of a table by their names, of a list by
their places. A date has no field. -/
def fields? (names : List String) : Toml → Option (List (Option Toml))
  | table _ entries => some (names.map fun name => entries.lookup name)
  | array items | tables items =>
    some ((List.range names.length).map fun place => items[place]?)
  | date => some (names.map fun _ => none)
  | _ => none

/-- Reads a value that has a standard value if it is missing. -/
def orElse? (read : Toml → Option α) (standard : α) : Option Toml → Option α
  | some value => read value
  | none => some standard

end Toml

open Toml (fields? orElse? texts? number? bool?)

/-- The selection that a value describes. -/
def FileSelection.ofToml? (value : Toml) : Option FileSelection := do
  match ← fields? ["include", "ignore"] value with
  | [included, ignored] =>
    return { included := ← orElse? texts? standard.included included
             ignored := ← orElse? texts? standard.ignored ignored }
  | _ => none

/-- The weights that a value describes. -/
def Weights.ofToml? (value : Toml) : Option Weights := do
  let given ← fields? (Rule.all.map Rule.id) value
  (Rule.all.zip given).foldlM (fun weights (rule, value) => do
    return weights.set rule (← orElse? number? (standard.get rule) value)) standard

/-- Whether files may be worked on side by side, as a value describes it. -/
def Settings.parallelOfToml? (value : Toml) : Option Bool := do
  match ← fields? ["parallel"] value with
  | [parallel] => orElse? bool? standard.parallel parallel
  | _ => none

namespace Settings

/-- The settings that a document describes. -/
def ofToml? (document : Toml) : Option Settings := do
  match ← fields? ["scan", "weights", "analysis"] document with
  | [scan, weights, analysis] =>
    return { selection := ← orElse? FileSelection.ofToml? .standard scan
             weights := ← orElse? Weights.ofToml? .standard weights
             parallel := ← orElse? parallelOfToml? standard.parallel analysis }
  | _ => none

/-- The settings of a text; their weights must be proper. -/
def parse (text : String) : Except Failure Settings := do
  match (Toml.readDocument? text).bind ofToml? with
  | none => throw .toml
  | some settings =>
    settings.weights.validate
    return settings

end Settings

end DebtGauge
