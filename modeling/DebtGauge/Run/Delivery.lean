import DebtGauge.CommandFailure
import DebtGauge.FileTree
import DebtGauge.Report.Text

/-!
# Where reports go

Main definitions:

* `Report.deliver` — writes a report into a file, or hands its text back.
-/

namespace DebtGauge

/-- What is printed, and the file system after it. -/
structure Delivery where
  printed : String
  fs : FileSystem

/-- Writes a report into the file `output`; without one its text is printed. -/
def Report.deliver (report : Report) (format : ReportFormat) (output : Option FilePath)
    (styled : Bool) (fs : FileSystem) : Except CommandFailure Delivery :=
  let text := report.text format styled
  match output with
  | none => .ok ⟨text, fs⟩
  | some path =>
    match fs.write? path text with
    | some fs => .ok ⟨"", fs⟩
    | none => .error (.unwritableReport path)

end DebtGauge
