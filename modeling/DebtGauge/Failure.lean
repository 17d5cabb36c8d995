import DebtGauge.Decimal.Fixed
import DebtGauge.Glob
import DebtGauge.Rule

/-!
# Failures

What can go wrong, as causes; the texts are made from them in one place. A failure that
concerns a single file is recoverable: the file is skipped and the run goes on.

Main definitions:

* `Failure` — the causes;
* `Failure.message` — their texts;
* `Failure.isRecoverable` — whether a run goes on without the file.
-/

namespace DebtGauge

/-- What is wrong with a source text. -/
inductive ParseProblem where
  /-- No grammar belongs to the file's name. -/
  | unsupportedExtension
  /-- There is no tree for the text. -/
  | noTree
  /-- Text that the grammar does not allow. -/
  | unexpectedText
  /-- A token of this kind is missing. -/
  | missing (kind : String)
deriving DecidableEq

/-- The text of a parse problem. -/
def ParseProblem.message : ParseProblem → String
  | unsupportedExtension => "unsupported file extension"
  | noTree => "parser produced no tree"
  | unexpectedText => "syntax error"
  | missing kind => "missing " ++ kind

/-- A field that must not be empty. -/
inductive RequiredField where
  | filePath
  | ruleId
  | message
deriving DecidableEq

/-- The name of a required field. -/
def RequiredField.name : RequiredField → String
  | filePath => "filePath"
  | ruleId => "ruleId"
  | message => "message"

/-- What the file system refuses. -/
inductive FileProblem where
  | unreadableSource
  | unreadableSettings
  /-- The root of a run has no absolute path. -/
  | unresolvableRoot
  | missingPath (path : FilePath)
deriving DecidableEq

/-- The text of a file problem. -/
def FileProblem.message : FileProblem → String
  | unreadableSource => "Failed to read source file"
  | unreadableSettings => "Failed to read config file"
  | unresolvableRoot => "Failed to resolve analysis root"
  | missingPath path => "Path does not exist: " ++ path.text

/-- What is wrong with settings. -/
inductive SettingsProblem where
  /-- A weight is negative, infinite or no number. -/
  | improperWeight (rule : Rule) (weight : Float)
  /-- An override is not of the form `category=weight`. -/
  | notAnAssignment (entry : String)
  | unknownCategory (name : String)
  | unreadableWeight (text : String) (rule : Rule)
  /-- A settings file holds improper settings. -/
  | improperFile (path : FilePath) (reason : String)

/-- The text of a settings problem. -/
def SettingsProblem.message : SettingsProblem → String
  | improperWeight rule weight =>
    s!"{rule.id} weight must be a non-negative number, got {Decimal.plainText weight}"
  | notAnAssignment entry => s!"expected category=weight, got '{entry}'"
  | unknownCategory name =>
    let known := ", ".intercalate (Rule.all.map Rule.id)
    s!"unknown category '{name}' (expected one of: {known})"
  | unreadableWeight text rule => s!"invalid weight '{text}' for {rule.id}"
  | improperFile path reason => s!"{path.text}: {reason}"

/-- Why an operation fails. -/
inductive Failure where
  | fileSystem (problem : FileProblem)
  | parse (file : FilePath) (line column : Nat) (problem : ParseProblem)
  | missingField (field : RequiredField)
  | settings (problem : SettingsProblem)
  /-- A metric's value is infinite or no number. -/
  | improperValue (kind : MetricKind) (value : Float)
  /-- Weights that should sum to one do not. -/
  | weightSum (sum : Float)
  | pattern (problem : Glob.Problem)
  /-- A JSON text that is not well-formed, or not of the expected form. -/
  | json
  /-- A TOML text that is not well-formed, or not of the expected form. -/
  | toml
  /-- The operating system refuses to write. -/
  | io

namespace Failure

/-- The text of a failure. -/
def message : Failure → String
  | fileSystem problem => "File system error: " ++ problem.message
  | parse file line column problem =>
    s!"Parse error in {file.text}:{line}:{column}: {problem.message}"
  | missingField field => "Missing required field: " ++ field.name
  | settings problem => "Configuration error: " ++ problem.message
  | improperValue kind value =>
    s!"Validation error: {kind.name} value must be finite, got {Decimal.plainText value}"
  | weightSum sum =>
    let written := Decimal.fixedText 4 sum
    s!"Category weights sum to {written} after normalization, expected 1.0"
  | pattern problem => problem.message
  | json => "malformed JSON"
  | toml => "malformed TOML"
  | io => "I/O error"

/-- Failures of a single file are skipped; all others end the run. -/
def isRecoverable : Failure → Bool
  | fileSystem _ | parse _ _ _ _ | io => true
  | _ => false

end Failure

end DebtGauge
