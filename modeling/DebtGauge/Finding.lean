import DebtGauge.Failure
import DebtGauge.Source
import DebtGauge.Text.Blank

/-!
# Findings

A finding is an issue that a rule reports about a file.

Main definitions:

* `Finding` — an issue;
* `Finding.create` — makes one; its rule and its message must not be blank, and its path
  must not be empty.
-/

namespace DebtGauge

/-- An issue that a rule reports. -/
structure Finding where
  ruleId : String
  severity : Severity
  message : String
  path : FilePath
  location : Option Location
  suggestion : Option String
deriving DecidableEq

namespace Finding

/-- An issue that a rule reports. -/
def create (ruleId : String) (severity : Severity) (message : String) (path : FilePath)
    (location : Option Location) (suggestion : Option String) : Except Failure Finding :=
  if Text.isAllBlank ruleId then .error (.missingField .ruleId)
  else if Text.isAllBlank message then .error (.missingField .message)
  else if path.text = "" then .error (.missingField .filePath)
  else .ok { ruleId, severity, message, path, location, suggestion }

/-- The first line of the finding's span. -/
def line? (finding : Finding) : Option Nat :=
  finding.location.map (·.startLine)

/-- Where a finding is: its path, with its line if that is known. -/
def place (finding : Finding) : String :=
  match finding.line? with
  | some line => s!"{finding.path.text}:{line}"
  | none => finding.path.text

end Finding

end DebtGauge
