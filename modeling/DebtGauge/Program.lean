import DebtGauge.CommandLine.Options
import DebtGauge.CommandLine.Reader
import DebtGauge.CommandLine.Usage
import DebtGauge.Run.Delivery
import DebtGauge.Run.Project
import DebtGauge.Settings.Creation
import DebtGauge.Settings.Search

/-!
# The program

A call of the program with its words, seen as a function: what it prints, how it exits,
and what becomes of the file system. The work has two stages with the clock between them,
since a report says how long its analysis took.

Main definitions:

* `Program.start` — everything up to the finished analysis;
* `Program.conclude` — the report and the exit code;
* `Program.run` — both stages.
-/

namespace DebtGauge

namespace Program

/-- What a call of the program leaves behind. -/
structure Result where
  exitCode : Nat
  output : String
  errors : String
  fs : FileSystem

/-- A call that fails. -/
def failed (fs : FileSystem) (failure : CommandFailure) : Result :=
  { exitCode := 1, output := "", errors := failure.text, fs }

/-- A call whose words are refused; asking for help or the version is no fault. -/
def refused (fs : FileSystem) : CommandLine.Refusal → Result
  | .helpWanted => { exitCode := 0, output := CommandLine.usage, errors := "", fs }
  | .versionWanted => { exitCode := 0, output := CommandLine.versionText, errors := "", fs }
  | refusal =>
    { exitCode := 2, output := ""
      errors := s!"error: {refusal.explanation}\n\n{CommandLine.usage}", fs }

/-- How far a call has got. -/
inductive Stage where
  | ended (result : Result)
  | analyzed (arguments : CommandLine.AnalyzeArguments) (report : Report)

/-- Writes a settings file into the working directory. -/
def createSettings (fs : FileSystem) (force : Bool) : Result :=
  match Settings.create fs ⟨"."⟩ force with
  | .ok (path, fs) =>
    { exitCode := 0, output := s!"Created {path.text} configuration file\n", errors := "", fs }
  | .error failure => failed fs failure

/-- Analyses the project at the path of the arguments. -/
def analyze (parser : Parser) (fs : FileSystem) (now : Instant)
    (arguments : CommandLine.AnalyzeArguments) : Except CommandFailure Report := do
  let options ← arguments.options (Settings.search fs arguments.path)
  (analyzeProject parser fs now options).mapError (.analysis options.path)

/-- Everything up to the finished analysis. -/
def start (parser : Parser) (fs : FileSystem) (now : Instant) (words : List String) : Stage :=
  match CommandLine.read words with
  | .error refusal => .ended (refused fs refusal)
  | .ok { command := .init force, .. } => .ended (createSettings fs force)
  | .ok { command := .analyze arguments, .. } =>
    match analyze parser fs now arguments with
    | .ok report => .analyzed arguments report
    | .error failure => .ended (failed fs failure)

/-- What is said about a score that is too low. -/
def lowScoreText (score least : Float) : String :=
  s!"Overall score {Decimal.fixedText 2 score} is below the required " ++
    s!"{Decimal.fixedText 2 least}\n"

/-- Delivers a report; the call fails if the score is lower than asked for. -/
def finish (fs : FileSystem) (styled : Bool) (arguments : CommandLine.AnalyzeArguments)
    (report : Report) : Result :=
  match report.deliver arguments.format arguments.output styled fs with
  | .error failure => failed fs failure
  | .ok delivery =>
    match arguments.failUnder.filter (report.score.overall < ·) with
    | some least =>
      { exitCode := 1, output := delivery.printed
        errors := lowScoreText report.score.overall least, fs := delivery.fs }
    | none => { exitCode := 0, output := delivery.printed, errors := "", fs := delivery.fs }

/-- The end of a call, at the given instant and so many milliseconds after its start. -/
def conclude (fs : FileSystem) (styled : Bool) (now : Instant) (elapsedMilliseconds : Nat) :
    Stage → Result
  | .ended result => result
  | .analyzed arguments report =>
    finish fs styled arguments (report.finishedAt now elapsedMilliseconds)

/-- A call of the program that takes no time. -/
def run (parser : Parser) (fs : FileSystem) (styled : Bool) (now : Instant)
    (words : List String) : Result :=
  conclude fs styled now 0 (start parser fs now words)

end Program

end DebtGauge
