import DeskCalc.History
import DeskCalc.Modes
import DeskCalc.Settings.EnvironmentFile
import DeskCalc.Settings.Integer
import DeskCalc.Settings.Path
import DeskCalc.Text.Case

/-!
# Settings

Four settings come from variables of the environment or of a file beside the program: the length of
the history, the unit of angles, the level of log messages and where the document is kept. They are
checked in this order, and the first one that is not valid is reported. A file that sets what no
variable can hold is refused before that.
-/

namespace DeskCalc

structure Settings where
  storagePath : FilePath
  historyLimit : Int
  angleUnit : AngleUnit
  logLevel : Text
  deriving DecidableEq

inductive SettingsError where
  /-- A variable of the file cannot be set. -/
  | unsettable (e : EnvironmentFile.SetError)
  | limitNotInteger (value : Text)
  | limitTooSmall
  | unknownUnit (value : Text)
  | unknownLevel (value : Text)
  | noHomeDirectory
  deriving DecidableEq

namespace SettingsError

def message : SettingsError → Text
  | unsettable e => e.message
  | limitNotInteger v => text "SCICALC_HISTORY_LIMIT must be an integer, got " ++ v.quoted
  | limitTooSmall => text "SCICALC_HISTORY_LIMIT must be at least 1"
  | unknownUnit v => text "SCICALC_ANGLE_UNIT must be 'deg' or 'rad', got " ++ v.quoted
  | unknownLevel v => text "Unknown SCICALC_LOG_LEVEL " ++ v.quoted
  | noHomeDirectory => text "Could not determine home directory."

end SettingsError

namespace Settings

def defaultStoragePath : Text := text "~/.scicalc/state.json"

def logLevels : List Text :=
  ["CRITICAL", "FATAL", "ERROR", "WARN", "WARNING", "INFO", "DEBUG", "NOTSET"].map text

def defaultLogLevel : Text := text "INFO"

def logFormat : Text := text "%(asctime)s - %(name)s - %(levelname)s - %(message)s"

def readLimit (value : Text) : Except SettingsError Int :=
  match value.integer? with
  | none => .error (.limitNotInteger value)
  | some n => if n < 1 then .error .limitTooSmall else .ok n

/-- The unit of angles, in letters of either case. -/
def readUnit (value : Text) : Except SettingsError AngleUnit :=
  let name := value.strip.toLower
  match AngleUnit.ofName? name with
  | some u => .ok u
  | none => .error (.unknownUnit name)

/-- The level of log messages, in letters of either case. -/
def readLevel (value : Text) : Except SettingsError Text :=
  let name := value.strip.toUpper
  if name ∈ logLevels then .ok name else .error (.unknownLevel name)

/-- The home directory of a user, if it is known; the user who runs the program has no name here. -/
def homeOf? (home : Text) (users : Text → Option Text) (user : Text) : Option FilePath :=
  (if user = [] then some home else users user).bind FilePath.ofHome?

def readPath (home : Text) (users : Text → Option Text) (value : Text) :
    Except SettingsError FilePath :=
  match (FilePath.ofText value).expandHome? (homeOf? home users) with
  | some p => .ok p
  | none => .error .noHomeDirectory

/-- The settings that variables give, with defaults for those that are not set. No other users are
known unless said otherwise. -/
def ofVariables (home : Text) (lookup : Text → Option Text)
    (users : Text → Option Text := fun _ => none) : Except SettingsError Settings := do
  let get (name : String) (default : Text) : Text := (lookup (text name)).getD default
  let historyLimit ← readLimit (get "SCICALC_HISTORY_LIMIT" (Text.ofInt History.defaultLimit))
  let angleUnit ← readUnit (get "SCICALC_ANGLE_UNIT" AngleUnit.degrees.name)
  let logLevel ← readLevel (get "SCICALC_LOG_LEVEL" defaultLogLevel)
  let storagePath ← readPath home users (get "SCICALC_STORAGE_PATH" defaultStoragePath)
  return { storagePath, historyLimit, angleUnit, logLevel }

/-- The settings of an environment and of a file beside the program. -/
def ofEnvironment (home : Text) (environment : Text → Option Text) (file : Text)
    (users : Text → Option Text := fun _ => none) : Except SettingsError Settings :=
  match EnvironmentFile.setError? environment file with
  | some e => .error (.unsettable e)
  | none => ofVariables home (EnvironmentFile.get? environment file) users

def default (home : Text) : Except SettingsError Settings := ofVariables home fun _ => none

end Settings

end DeskCalc
