import DebtGauge.Failure

/-!
# Failures of commands

Why a command ends without success. Some failures are put into the context of what the
command was about; the failure itself is then their cause.

Main definitions:

* `CommandFailure` — the failures of commands;
* `CommandFailure.message`, `CommandFailure.cause?` — what is said first, and the reason;
* `CommandFailure.text` — what the program prints.
-/

namespace DebtGauge

/-- Why a command fails. -/
inductive CommandFailure where
  /-- A failure that speaks for itself. -/
  | plain (failure : Failure)
  | unknownRule (name : String)
  /-- There are settings already, and they are not to be overwritten. -/
  | settingsExist
  /-- The settings file cannot be written. -/
  | unwritableSettings
  /-- The project at a path cannot be analysed. -/
  | analysis (path : FilePath) (cause : Failure)
  /-- The file for the report cannot be written. -/
  | unwritableReport (path : FilePath)

namespace CommandFailure

/-- What is said first. -/
def message : CommandFailure → String
  | plain failure => failure.message
  | unknownRule name => s!"Unknown rule '{name}'"
  | settingsExist => "Configuration file already exists. Use --force to overwrite."
  | unwritableSettings => Failure.io.message
  | analysis path _ => "Failed to analyze " ++ path.text
  | unwritableReport path => "Failed to create output file " ++ path.text

/-- The failure behind the message, where the message only gives the context. -/
def cause? : CommandFailure → Option Failure
  | analysis _ cause => some cause
  | unwritableReport _ => some .io
  | _ => none

/-- A text with every line four blanks to the right. -/
def indented (text : String) : String :=
  "\n".intercalate ((Text.splitOn '\n' text.toList).map fun line =>
    "    " ++ String.ofList line)

/-- What the program prints about a failure. -/
def text (failure : CommandFailure) : String :=
  let cause := failure.cause?.map fun cause => "\n\nCaused by:\n" ++ indented cause.message
  "Error: " ++ failure.message ++ cause.getD "" ++ "\n"

end CommandFailure

end DebtGauge
