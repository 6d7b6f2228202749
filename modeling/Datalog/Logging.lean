import Datalog.Files
import Datalog.Logging.Filter
import Datalog.Settings
import Datalog.Settings.Variables

/-!
# Logging

What is logged is decided by the settings, and above them by three variables of the application. A log
starts once its file can be opened for appending and its filter can be read.
-/

namespace Datalog

/-- What is logged, in which form, and where to. -/
structure LogSettings where
  filter : String
  json : Bool
  file : Option String
  deriving DecidableEq, Inhabited

namespace LogSettings

/-- The log settings of an application, whose name in variables is written in capital letters. A variable
with any value but `0` asks for JSON. -/
def resolve (application : String) (s : LoggingSettings) (env : Environment) : LogSettings :=
  let setting := fun name => env.get? (application.toUpper ++ name)
  { filter := (setting "_LOG").getD s.level
    json := match setting "_LOG_JSON" with
      | some v => v ≠ "0"
      | none => s.format = "json"
    file := (setting "_LOG_FILE").or s.file }

/-- Starts logging: opens the file, if there is one, within a directory, and reads the filter. -/
def start (s : LogSettings) (dir : Path) (files : FileTree) : Except EngineError Unit × FileTree :=
  let opened : Except FileError FileTree := match s.file with
    | none => .ok files
    | some file => files.openForAppend (dir ++ [file])
  match opened with
  | .error _ => (.error (.setting .logFile), files)
  | .ok files =>
    (if LogFilter.isValid s.filter then .ok () else .error (.setting .logFilter), files)

end LogSettings

end Datalog
