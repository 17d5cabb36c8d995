import DebtGauge.CommandFailure
import DebtGauge.FileTree
import DebtGauge.Settings.Basic

/-!
# New settings files

Main definitions:

* `Settings.create` — writes the template into a directory.
-/

namespace DebtGauge.Settings

/-- Writes a settings file with the standard settings into a directory: its path, and the
file system with it. What is there already is overwritten only by force. -/
def create (fs : FileSystem) (directory : FilePath) (force : Bool) :
    Except CommandFailure (FilePath × FileSystem) :=
  let path := directory.join ⟨fileName⟩
  if fs.pathExists path && !force then .error .settingsExist
  else match fs.write? path template with
    | some fs => .ok (path, fs)
    | none => .error .unwritableSettings

end DebtGauge.Settings
