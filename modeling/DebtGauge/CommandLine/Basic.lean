import DebtGauge.FilePath.Basic
import DebtGauge.Report.Terminal

/-!
# Command lines

The program has two commands: one analyses a project, the other writes a settings file.

Main definitions:

* `Invocation`, `Command` — what a command line asks for;
* `Refusal` — why a command line asks for nothing that can be done;
* `Argument` — everything that may stand on a command line, with its spellings.
-/

namespace DebtGauge.CommandLine

/-- What the command that analyses a project was told. Lists that are not given leave the
settings of the project in force. -/
structure AnalyzeArguments where
  path : FilePath
  format : ReportFormat
  output : Option FilePath
  included : Option (List String)
  ignored : Option (List String)
  weights : Option (List String)
  rules : Option (List String)
  noParallel : Bool
  /-- The number of threads; zero leaves it to the program. -/
  jobs : Nat
  /-- The least overall score with which the program succeeds. -/
  failUnder : Option Float
  quiet : Bool

/-- What the program is to do. -/
inductive Command where
  | analyze (arguments : AnalyzeArguments)
  | init (force : Bool)

/-- A command line that was understood. -/
structure Invocation where
  /-- How much is logged. -/
  verbosity : Nat
  command : Command

/-- Why there is no command to carry out. -/
inductive Refusal where
  /-- The program was called without anything. -/
  | nothingGiven
  | missingCommand
  | unknownCommand
  | missingArgument
  | unknownArgument
  /-- Something was given twice that may be given once. -/
  | repeatedArgument
  /-- A value was given to something that takes none. -/
  | unexpectedValue
  /-- A value is missing, empty, or none of those allowed. -/
  | improperValue
  | unreadableNumber
  | helpWanted
  | versionWanted
deriving DecidableEq

/-- What may stand on a command line. -/
inductive Argument where
  | path
  | format
  | output
  | included
  | ignored
  | weights
  | rules
  | noParallel
  | jobs
  | failUnder
  | quiet
  | force
  | verbose
  | help
  | version
deriving DecidableEq

namespace Argument

/-- The spelling behind two hyphens; a path has none. -/
def longName? : Argument → Option String
  | path => none
  | format => some "format"
  | output => some "output"
  | included => some "include"
  | ignored => some "ignore"
  | weights => some "weights"
  | rules => some "rules"
  | noParallel => some "no-parallel"
  | jobs => some "jobs"
  | failUnder => some "fail-under"
  | quiet => some "quiet"
  | force => some "force"
  | verbose => some "verbose"
  | help => some "help"
  | version => some "version"

/-- The letter behind one hyphen. -/
def letter? : Argument → Option Char
  | format | force => some 'f'
  | output => some 'o'
  | jobs => some 'j'
  | quiet => some 'q'
  | verbose => some 'v'
  | help => some 'h'
  | version => some 'V'
  | _ => none

/-- Whether a value belongs to it. -/
def takesValue : Argument → Bool
  | path | format | output | included | ignored | weights | rules | jobs | failUnder => true
  | _ => false

end Argument

/-- Where a part of a command line stands: in front of a command, or behind it. -/
inductive Scope where
  | program
  | analyze
  | init
deriving DecidableEq

namespace Scope

/-- What may stand in a scope. -/
def arguments : Scope → List Argument
  | program => [.verbose, .help, .version]
  | analyze =>
    [.path, .format, .output, .included, .ignored, .weights, .rules, .noParallel, .jobs,
     .failUnder, .quiet, .verbose, .help]
  | init => [.force, .verbose, .help]

/-- The argument with a given long spelling. -/
def named? (scope : Scope) (name : String) : Option Argument :=
  scope.arguments.find? (·.longName? = some name)

/-- The argument with a given letter. -/
def lettered? (scope : Scope) (letter : Char) : Option Argument :=
  scope.arguments.find? (·.letter? = some letter)

end Scope

end DebtGauge.CommandLine
