import DebtGauge.CommandLine.Basic

/-!
# What the program says about itself

Main definitions:

* `usage` — how the program is called;
* `Refusal.explanation` — what is wrong with a command line.
-/

namespace DebtGauge.CommandLine

/-- The name and the version of the program. -/
def versionText : String := "debtscore 0.3.0\n"

/-- How the program is called. -/
def usage : String :=
  String.join <| [
    "Technical debt score for TypeScript and JavaScript projects",
    "",
    "Usage: debtscore [-v]... analyze [OPTIONS] <PATH>",
    "       debtscore [-v]... init [--force]",
    "",
    "Options of analyze:",
    "  -f, --format <FORMAT>      Output format: terminal (default) or json",
    "  -o, --output <FILE>        Output file (defaults to stdout)",
    "      --include <PATTERNS>   Glob patterns of files to analyze, with commas between",
    "      --ignore <PATTERNS>    Glob patterns of files to skip, with commas between",
    "      --weights <WEIGHTS>    Category weights, e.g. complexity=0.4,size=0.2",
    "      --rules <RULES>        Only evaluate these rules",
    "      --no-parallel          Disable parallel processing",
    "  -j, --jobs <JOBS>          Number of threads (0 = all cores)",
    "      --fail-under <SCORE>   Fail when the overall score is below this value",
    "  -q, --quiet                Hide the progress bar",
    "",
    "Options of init:",
    "  -f, --force                Overwrite an existing configuration file",
    "",
    "Other options:",
    "  -v, --verbose              Increase log verbosity",
    "  -h, --help                 Print help",
    "  -V, --version              Print version"].map (· ++ "\n")

/-- What is wrong with a command line. -/
def Refusal.explanation : Refusal → String
  | nothingGiven | missingCommand => "a command is required"
  | unknownCommand => "unrecognized command"
  | missingArgument => "a required argument was not provided"
  | unknownArgument => "unexpected argument found"
  | repeatedArgument => "an argument cannot be used multiple times"
  | unexpectedValue => "unexpected value for an argument"
  | improperValue => "invalid or missing value for an argument"
  | unreadableNumber => "invalid number for an argument"
  | helpWanted => "help was asked for"
  | versionWanted => "the version was asked for"

end DebtGauge.CommandLine
