import ChatCommands.Attributes.Options
import ChatCommands.Bot
import ChatCommands.Config.Variables
import ChatCommands.FilePath
import ChatCommands.Trigger

/-!
# Configuration

A bot is configured by a settings file and by variables of the environment, which may also be
given in a file of their own; variables that are there already are not replaced. A setting that
is absent has a default. Settings of a wrong type are reported when the program starts, and fail
only when they are used.

## Main definitions

* `Surroundings`: the files, the variables and the directories
* `Config`: the settings and the variables in force
* `Config.prefixSetting`, `Config.logDirectory` and so on: the settings by their meaning
* `Config.attributes`, `Config.bot`: what is built from them
* `Config.problems`: what is reported about them
-/

namespace ChatCommands

/-- Where a program starts. -/
structure Surroundings where
  /-- The content of the settings file, if there is one. -/
  settings : Option Setting := none
  environment : Variables := []
  /-- The variables of the file of variables, if there is one. -/
  fileVariables : Option Variables := none
  directory : String
  home : String
  deriving Repr

namespace Surroundings

/-- The directory of the files that configure the program. -/
def configDirectory (s : Surroundings) : FilePath := (FilePath.ofText s.directory).child "config"

/-- The settings file. -/
def settingsFile (s : Surroundings) : FilePath := s.configDirectory.child "settings.yaml"

/-- The file of variables. -/
def variablesFile (s : Surroundings) : FilePath := s.configDirectory.child ".env"

/-- The files that configure the program, as far as they are there. -/
def plainFiles (s : Surroundings) : List FilePath :=
  (if s.settings.isSome then [s.settingsFile] else []) ++
    if s.fileVariables.isSome then [s.variablesFile] else []

end Surroundings

/-- The settings and the variables in force. -/
structure Config where
  settings : Setting
  environment : Variables
  directory : FilePath
  home : String
  deriving Repr

namespace Config

/-- The configuration of a program that starts somewhere. A settings file without content is an
empty table. -/
def load (s : Surroundings) : Config where
  settings :=
    match s.settings with
    | some v => if v.counts then v else .table []
    | none => .table []
  environment :=
    s.environment ++ (s.fileVariables.getD []).filter fun v => (s.environment.lookup v.1).isNone
  directory := .ofText s.directory
  home := s.home

/-- A field of a setting that has to be a table. -/
def fieldOf (v : Setting) (name : String) (default : Setting) : Except Fault Setting :=
  match v with
  | .table fields => .ok ((fields.lookup name).getD default)
  | v => .error (.lacks v "get")

/-- A setting. -/
def setting (c : Config) (name : String) (default : Setting) : Except Fault Setting :=
  fieldOf c.settings name default

/-- A variable that is there and not empty. -/
def environment? (c : Config) (name : String) : Option String :=
  (c.environment.lookup name).filter (· ≠ "")

/-- The prefix; a variable goes before the setting. -/
def prefixSetting (c : Config) : Except Fault Setting :=
  match c.environment? "CHAINBOT_PREFIX" with
  | some s => .ok (.text s)
  | none => c.setting "prefix" (.text "!")

/-- How many seconds units have when the program stops. -/
def shutdownTimeout (c : Config) : Except Fault Setting := c.setting "shutdown_timeout" (.int 10)

/-- Where logs are written. -/
def logDirectory (c : Config) : Except Fault FilePath := do
  let v ← c.setting "log_dir" .null
  if v.counts then
    match v with
    | .scalar (.text s) =>
      match (FilePath.ofText s).expandHome c.home with
      | some p => return p
      | none => throw (.runtime "Could not determine home directory.")
    | v => throw (.wrongType
        ("expected str, bytes or os.PathLike object, not " ++ v.typeName))
  else return c.directory.child "logs"

/-- A setting about logs. -/
def logSetting (c : Config) (name : String) (default : Setting) : Except Fault Setting := do
  fieldOf (← c.setting "logging" (.table [])) name default

/-- The level from which on events are logged; a variable goes before the setting. -/
def logLevel (c : Config) : Except Fault Setting := do
  let v ← c.setting "logging" (.table [])
  match c.environment? "CHAINBOT_LOG_LEVEL" with
  | some s => return .text s
  | none => fieldOf v "level" (.text "INFO")

/-- The levels of single subsystems. -/
def subsystemLevels (c : Config) : Except Fault Setting :=
  c.logSetting "subsystem_levels" (.table [])

/-- How many megabytes a log file may hold. -/
def maxFileSize (c : Config) : Except Fault Setting := c.logSetting "max_file_size_mb" (.int 10)

/-- How many old log files are kept. -/
def backupCount (c : Config) : Except Fault Setting := c.logSetting "backup_count" (.int 5)

/-- The settings that are attributes of the bot. -/
def attributeKeys : List String :=
  ["advanced_functionality", "help_command", "command_doesnt_exist_message",
    "no_permission_message", "spaces_allowed", "parse_self", "max_chain_depth"] ++
    Attributes.symbolNames

/-- The options of the attributes. Of a setting that is no table, only that it holds none of them
can be told. -/
def attributeOptions (c : Config) : Except Fault Fields :=
  match c.settings with
  | .table fields =>
    .ok (attributeKeys.filterMap fun k => (fields.lookup k).map fun v => (k, v))
  | v => do
    if ← attributeKeys.anyM fun k => v.contains (.text k) then
      throw (.wrongType (v.typeName ++ " indices must be integers"))
    return []

/-- The attributes of the bot. -/
def attributes (c : Config) : Except Fault Attributes := do
  Attributes.ofOptions (← c.attributeOptions)

/-- The bot of a configuration, and the time its units have when it stops. -/
def bot (c : Config) (t : Transport) : Except Fault (Bot × Setting) := do
  let p ← c.prefixSetting
  let attributes ← c.attributes
  let timeout ← c.shutdownTimeout
  let p ← Prefix.ofSetting p
  return (Bot.build t p attributes timeout, timeout)

/-- What is wrong with the type of the prefix. -/
def prefixProblems (fields : Fields) : List LogEvent :=
  match (fields.lookup "prefix").getD .null with
  | .scalar .null => []
  | .scalar (.text _) => []
  | .list _ => []
  | v => [.settingOfWrongType "prefix" v.typeName]

/-- What is wrong with a grammar symbol. -/
def symbolProblems (fields : Fields) (key : String) : List LogEvent :=
  match (fields.lookup key).getD .null with
  | .scalar .null => []
  | .scalar (.text s) =>
    if s.length = 1 then [] else [.settingOutOfRange key (.text s) "one character"]
  | v => [.settingOutOfRange key v "one character"]

/-- What is wrong with the nesting depth. -/
def depthProblems (fields : Fields) : List LogEvent :=
  let wrong (v : Setting) : List LogEvent := [.settingOutOfRange "max_chain_depth" v ">= 1"]
  match (fields.lookup "max_chain_depth").getD .null with
  | .scalar .null => []
  | .scalar (.bool true) => []
  | .scalar (.int i) => if 1 ≤ i then [] else wrong (.int i)
  | v => wrong v

/-- What is reported about the settings when the program starts. -/
def problems (c : Config) : Except Fault (List LogEvent) :=
  match c.settings with
  | .table fields =>
    .ok (prefixProblems fields ++ Attributes.symbolNames.flatMap (symbolProblems fields) ++
      depthProblems fields)
  | v => .error (.lacks v "get")

end Config

end ChatCommands
