import Campus.Disk.Access
import Campus.Json.Reader
import Campus.Log
import Campus.Text

/-!
# Configuration

A configuration is an object with the member `data_dir` and possibly `log_level`, both strings.
Other members may hold anything that has the form of JSON, since they are passed over. In place of
the object there may be an array of the two values in that order.
-/

namespace Campus

open Campus.Json (Glyph Written)

/-- A configuration. -/
structure Config where
  dataDir : String
  /-- The log level as written. -/
  logLevel : String
  /-- The severity that the log level names. -/
  severity : Severity
  deriving DecidableEq, Repr

/-- Why there is no configuration. -/
inductive ConfigError where
  | unreadable (e : DiskError)
  | malformed
  | blankDataDir
  | invalidLogLevel (level : String)
  deriving DecidableEq, Repr

/-- The reason in words. -/
def ConfigError.message : ConfigError → String
  | .unreadable e => "Failed to read config: " ++ e.message
  | .malformed => "Invalid config JSON: the settings are missing, repeated or no strings"
  | .blankDataDir => "data_dir must not be empty"
  | .invalidLogLevel level =>
    "Invalid log_level: '" ++ level ++ "'. Must be one of trace, info, warn, error."

namespace Config

/-- The member that gives the data directory. -/
def dataDirMember : String := "data_dir"

/-- The member that gives the log level. -/
def logLevelMember : String := "log_level"

/-- The log level where none is given. -/
def defaultLogLevel : String := "info"

/-- The text of a tree that is a string. -/
def settingText? : Written → Option String
  | .string glyphs => Json.textOf? glyphs
  | _ => none

/-- The members of an object with their names decoded. -/
def decodeNames? (members : List (List Glyph × Written)) : Option (List (String × Written)) :=
  members.mapM fun m => (Json.textOf? m.1).map (·, m.2)

/-- The value of a member that may be missing but not be there twice: `some none` if it is
missing. -/
def setting? (name : String) (members : List (String × Written)) : Option (Option String) :=
  match members.filter fun m => m.1 = name with
  | [] => some none
  | [(_, value)] => (settingText? value).map some
  | _ => none

/-- The data directory and the log level that an object gives. -/
def settingsOfMembers? (members : List (String × Written)) : Option (String × String) :=
  (setting? dataDirMember members).bind fun dataDir? =>
    (setting? logLevelMember members).bind fun logLevel? =>
      dataDir?.map fun dataDir => (dataDir, logLevel?.getD defaultLogLevel)

/-- The data directory and the log level that a tree gives. -/
def settings? : Written → Option (String × String)
  | .array [dataDir] => (settingText? dataDir).map (·, defaultLogLevel)
  | .array [dataDir, logLevel] =>
    (settingText? dataDir).bind fun d => (settingText? logLevel).map (d, ·)
  | .object members => (decodeNames? members).bind settingsOfMembers?
  | _ => none

/-- The severity that a log level names. A log cannot be narrowed down to fatal lines. -/
def severityOf? (level : String) : Option Severity :=
  (Severity.ofName? level).filter fun s => s != .fatal

/-- The configuration that a text holds. -/
def ofText (text : String) : Except ConfigError Config :=
  match (Written.ofChars? text.toList).bind settings? with
  | none => .error .malformed
  | some (dataDir, logLevel) =>
    if Text.allBlank dataDir.toList then .error .blankDataDir
    else
      match severityOf? logLevel with
      | none => .error (.invalidLogLevel logLevel)
      | some severity => .ok ⟨dataDir, logLevel, severity⟩

/-- The configuration in a file. -/
def load (disk : Tree) (place : Place) : Except ConfigError Config :=
  match disk.readText place with
  | .error e => .error (.unreadable e)
  | .ok text => ofText text

end Config

end Campus
