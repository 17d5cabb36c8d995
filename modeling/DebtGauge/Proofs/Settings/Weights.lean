import DebtGauge.CommandLine.Options
import DebtGauge.Proofs.Score.Overall
import DebtGauge.Proofs.Sequence
import DebtGauge.Settings.Search

/-!
# Where weights come from

Weights come from the standard settings, from settings files and from overrides on a command
line. A text is only accepted if all its weights are proper, and an override is refused before
it is applied, so that a list of overrides that fails half-way leaves proper weights behind too.

Main definitions:

* `Weights.AllProper` — no weight is infinite, negative or no number at all;
* `Weights.afterCalls` — the weights after lists of overrides, whatever became of each.

Main results:

* `Weights.allProper_applyOverrides` — overrides keep weights proper, also if one is refused;
* `Settings.allProper_search` — the settings of a project have proper weights;
* `weights_proper_from_every_source` — no way to weights ends in improper ones.
-/

namespace DebtGauge

namespace Weights

/-- All five weights are finite and not negative. -/
def AllProper (weights : Weights) : Prop :=
  ∀ rule, (weights.get rule).isFinite = true ∧ 0.0 ≤ weights.get rule

/-- The weights after lists of overrides, one list after the other. A list that is refused
leaves behind what it has applied before. -/
def afterCalls (weights : Weights) (calls : List (List String)) : Weights :=
  calls.foldl (fun weights entries => (weights.applyOverrides entries).1) weights

theorem isProper_iff {weight : Float} :
    isProper weight = true ↔ weight.isFinite = true ∧ 0.0 ≤ weight := by
  rw [isProper, Bool.and_eq_true, decide_eq_true_eq]

theorem allProper_of_validate {weights : Weights} (h : weights.validate = .ok ()) :
    weights.AllProper :=
  fun rule => isProper_iff.mp (isProper_of_validate h rule)

theorem allProper_standard : standard.AllProper := allProper_of_validate rfl

/-! ## Overrides -/

theorem AllProper.set {weights : Weights} (h : weights.AllProper) (rule : Rule) {weight : Float}
    (hWeight : isProper weight = true) : (weights.set rule weight).AllProper := by
  intro other
  rw [get_set]
  by_cases hOther : other = rule
  · rw [if_pos hOther]
    exact isProper_iff.mp hWeight
  · rw [if_neg hOther]
    exact h other

/-- An override is only read if its weight is proper. -/
theorem isProper_of_parseOverride {entry : String} {rule : Rule} {weight : Float}
    (h : parseOverride entry = .ok (rule, weight)) : isProper weight = true := by
  unfold parseOverride at h
  -- each reading that fails ends the whole one, so that only the last test is left
  cases hSplit : splitAssignment? entry with
  | none =>
    rw [hSplit] at h
    cases h
  | some parts =>
    obtain ⟨key, value⟩ := parts
    simp only [hSplit] at h
    cases hRule : Rule.ofId? (Text.trim key) with
    | none =>
      rw [hRule] at h
      cases h
    | some found =>
      simp only [hRule] at h
      cases hWeight : Decimal.readDouble? (Text.trim value) with
      | none =>
        rw [hWeight] at h
        cases h
      | some read =>
        simp only [hWeight] at h
        by_cases hProper : isProper read = true
        · rw [if_pos hProper] at h
          cases h
          exact hProper
        · rw [if_neg hProper] at h
          cases h

/-- Overrides keep weights proper, whether all of them are applied or one is refused.

The induction is on the list of overrides: what is applied before the refused one is proper,
and nothing is applied from there on. -/
theorem allProper_applyOverrides {weights : Weights} (h : weights.AllProper)
    (entries : List String) : (weights.applyOverrides entries).1.AllProper := by
  induction entries generalizing weights with
  | nil => exact h
  | cons entry entries ih =>
    cases hEntry : parseOverride entry with
    | error failure =>
      -- refused before it is applied, and nothing behind it is looked at
      rw [applyOverrides, hEntry]
      exact h
    | ok override =>
      -- the rest starts from weights that are proper again
      obtain ⟨rule, weight⟩ := override
      rw [applyOverrides, hEntry]
      exact ih (h.set rule (isProper_of_parseOverride hEntry))

theorem allProper_afterCalls {weights : Weights} (h : weights.AllProper)
    (calls : List (List String)) : (weights.afterCalls calls).AllProper := by
  induction calls generalizing weights with
  | nil => exact h
  | cons entries calls ih => exact ih (allProper_applyOverrides h entries)

end Weights

/-! ## Settings -/

namespace Settings

theorem allProper_parse {text : String} {settings : Settings} (h : parse text = .ok settings) :
    settings.weights.AllProper := by
  unfold parse at h
  cases hRead : (Toml.readDocument? text).bind ofToml? with
  | none =>
    rw [hRead] at h
    cases h
  | some read =>
    rw [hRead] at h
    -- what was read is only returned behind the test of its weights
    obtain ⟨_, hValid, hRead⟩ := exists_of_bind_ok h
    cases hRead
    exact Weights.allProper_of_validate hValid

theorem allProper_load {fs : FileSystem} {path : FilePath} {settings : Settings}
    (h : load fs path = .ok settings) : settings.weights.AllProper := by
  unfold load at h
  cases hText : fs.readText? path with
  | none =>
    rw [hText] at h
    cases h
  | some text =>
    simp only [hText] at h
    cases hParse : parse text with
    | error failure =>
      rw [hParse] at h
      cases h
    | ok parsed =>
      rw [hParse] at h
      cases h
      exact allProper_parse hParse

/-- The settings of a project have proper weights: either a file was accepted, or none was
and the standard settings apply. -/
theorem allProper_search (fs : FileSystem) (root : FilePath) :
    (search fs root).weights.AllProper := by
  unfold search
  cases hFound : (searchPlaces fs root).findSome? fun path =>
      if fs.isFile path then (load fs path).toOption else none with
  | none => exact Weights.allProper_standard
  | some settings =>
    obtain ⟨path, -, hPath⟩ := List.exists_of_findSome?_eq_some hFound
    by_cases hFile : fs.isFile path = true
    · rw [if_pos hFile] at hPath
      cases hLoad : load fs path with
      | error failure =>
        rw [hLoad] at hPath
        cases hPath
      | ok loaded =>
        rw [hLoad] at hPath
        cases hPath
        exact allProper_load hLoad
    · -- what is no file is passed over
      rw [if_neg hFile] at hPath
      cases hPath

end Settings

/-! ## Command lines -/

namespace CommandLine

theorem allProper_overrideWeights {weights changed : Weights} {entries? : Option (List String)}
    (hWeights : weights.AllProper) (h : overrideWeights weights entries? = .ok changed) :
    changed.AllProper := by
  cases entries? with
  | none =>
    cases h
    exact hWeights
  | some entries =>
    have hAfter := Weights.allProper_applyOverrides hWeights entries
    rw [overrideWeights] at h
    generalize weights.applyOverrides entries = result at h hAfter
    obtain ⟨after, outcome⟩ := result
    -- a refused list makes the whole command fail, so that only the other case is left
    cases outcome with
    | error failure => cases h
    | ok =>
      cases h
      exact hAfter

theorem allProper_options {arguments : AnalyzeArguments} {settings : Settings}
    {options : RunOptions} (hSettings : settings.weights.AllProper)
    (h : arguments.options settings = .ok options) : options.weights.AllProper := by
  -- the options are put together behind two readings, and only the first concerns weights
  obtain ⟨weights, hWeights, hRest⟩ := exists_of_bind_ok h
  obtain ⟨rules, -, hOptions⟩ := exists_of_bind_ok hRest
  cases hOptions
  exact allProper_overrideWeights hSettings hWeights

end CommandLine

/-! ## Every source -/

/-- Improper weights never reach a score. The weights of every text that is accepted as
settings are proper, and so are those that are found for a root in any file system; a command
line that is accepted on top of proper settings, in particular on top of those found for its
path, gives options with proper weights; and lists of overrides keep proper weights proper,
one after the other, also those that fail half-way. -/
theorem weights_proper_from_every_source :
    (∀ text settings, Settings.parse text = .ok settings → settings.weights.AllProper) ∧
    (∀ fs root, (Settings.search fs root).weights.AllProper) ∧
    (∀ (arguments : CommandLine.AnalyzeArguments) settings options,
      settings.weights.AllProper → arguments.options settings = .ok options →
        options.weights.AllProper) ∧
    (∀ fs (arguments : CommandLine.AnalyzeArguments) options,
      arguments.options (Settings.search fs arguments.path) = .ok options →
        options.weights.AllProper) ∧
    ∀ weights : Weights, weights.AllProper → ∀ calls, (weights.afterCalls calls).AllProper := by
  refine ⟨fun text settings => Settings.allProper_parse, Settings.allProper_search,
    fun arguments settings options => CommandLine.allProper_options,
    fun fs arguments options => ?_, fun weights => Weights.allProper_afterCalls⟩
  exact CommandLine.allProper_options (Settings.allProper_search fs arguments.path)

/-- A settings file that weighs size by negative zero. -/
def negativeZeroText : String := "[weights]\nsize = -0.0\ncomplexity = 3\n"

/-- A command line with two overrides of weights and nothing else. -/
def overridingArguments : CommandLine.AnalyzeArguments where
  path := ⟨"."⟩
  format := .terminal
  output := none
  included := none
  ignored := none
  weights := some ["duplication=1e-400", " size = -0"]
  rules := none
  noParallel := false
  jobs := 0
  failUnder := none
  quiet := true

/-- Negative zero and numbers too small to tell from zero are proper weights; the second list
of overrides fails at its second entry, the third one at its first. -/
theorem weights_proper_from_every_source_negativeZero :
    ∃ settings options, Settings.parse negativeZeroText = .ok settings ∧
      settings.weights.AllProper ∧ overridingArguments.options settings = .ok options ∧
      options.weights.AllProper ∧
      (options.weights.afterCalls [[], ["complexity=0.4", "size=-1"], ["size=nan"]]).AllProper := by
  obtain ⟨hTexts, -, hCommands, -, hCalls⟩ := weights_proper_from_every_source
  -- both readings succeed, by evaluation
  have hRead : (Settings.parse negativeZeroText).toOption.isSome = true := by decide +kernel
  have hOptions : ((Settings.parse negativeZeroText).toOption.bind fun settings =>
      (overridingArguments.options settings).toOption).isSome = true := by decide +kernel
  cases hParse : Settings.parse negativeZeroText with
  | error failure =>
    rw [hParse] at hRead
    cases hRead
  | ok settings =>
    rw [hParse] at hOptions
    cases hCommand : overridingArguments.options settings with
    | error failure =>
      have hNone : (overridingArguments.options settings).toOption.isSome = true := hOptions
      rw [hCommand] at hNone
      cases hNone
    | ok options =>
      have hSettings := hTexts negativeZeroText settings hParse
      have hChosen := hCommands overridingArguments settings options hSettings hCommand
      exact ⟨settings, options, rfl, hSettings, hCommand, hChosen,
        hCalls options.weights hChosen _⟩

end DebtGauge
