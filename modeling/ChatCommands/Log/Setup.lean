import ChatCommands.Config

/-!
# Where logs go

Every subsystem writes a file of its own, all events go to one more file, and the console shows
them too. If the directory for the files cannot be made, the console is left.

## Main definitions

* `LogLevel`, `levelOfSetting`: levels
* `LogHandler`, `LoggerSetup`, `LogSetup`: where the events of a logger go
* `LogSettings`, `setUpLogs`: the arrangement that settings ask for
-/

namespace ChatCommands

/-- The capitals of a letter whose capitals are plain ones. -/
def plainCapitals (c : Char) : List Char :=
  if c.toNat = 0x131 then ['I']
  else if c.toNat = 0x17F then ['S']
  else if c.toNat = 0xFB05 || c.toNat = 0xFB06 then ['S', 'T']
  else [c.toUpper]

/-- A text in capitals. -/
def capitals (s : String) : String := String.ofList (s.toList.flatMap plainCapitals)

/-- A level: a number, or something that turns out to be no level once it is put to use. -/
inductive LogLevel where
  | number (n : Nat)
  | unusable (f : Fault)
  deriving Repr, Inhabited

/-- The level as it is put to use. -/
def LogLevel.use : LogLevel → Except Fault Nat
  | number n => .ok n
  | unusable f => .error f

/-- What a name stands for where levels are looked up. Next to the levels there are the default
format of a line and the styles of formats. -/
def namedLevel? (name : String) : Option LogLevel :=
  [("DEBUG", .number 10), ("INFO", .number 20), ("WARN", .number 30), ("WARNING", .number 30),
    ("ERROR", .number 40), ("CRITICAL", .number 50), ("FATAL", .number 50),
    ("NOTSET", .number 0),
    ("BASIC_FORMAT",
      .unusable (.badValue "Unknown level: '%(levelname)s:%(name)s:%(message)s'")),
    ("_STYLES", .unusable (.wrongType "Level not an integer or a valid string"))].lookup
      (capitals name)

/-- The level that a setting asks for; names that are not known ask for the default. -/
def levelOfSetting (v : Setting) (default : LogLevel) : Except Fault LogLevel :=
  if v.counts then
    match v with
    | .scalar (.text s) => .ok ((namedLevel? s).getD default)
    | _ => .error (.lacks v "upper")
  else .ok default

/-- A file with the most bytes it may hold and how many old ones are kept. -/
structure LogFile where
  path : FilePath
  maxBytes : Setting
  backups : Setting
  deriving Repr

/-- The console, or a file, with the level from which on it takes events. -/
structure LogHandler where
  level : Nat
  file : Option LogFile
  deriving Repr

/-- Where the events of a logger go. -/
structure LoggerSetup where
  name : String
  level : Nat
  handlers : List LogHandler
  deriving Repr

/-- What the settings ask for. -/
structure LogSettings where
  directory : FilePath
  level : LogLevel := .number 20
  subsystemLevels : Setting := .table []
  /-- The most bytes of a file; none if what was given is no number. -/
  maxBytes : Option Setting := some (.int (10 * 1024 * 1024))
  backups : Setting := .int 5
  deriving Repr

/-- Megabytes in bytes. Texts and lists can be repeated, but that makes no number of them. -/
def bytesOf : Setting → Except Fault (Option Setting)
  | .scalar (.int i) => .ok (some (.int (i * 1024 * 1024)))
  | .scalar (.bool b) => .ok (some (.int (b.toInt * 1024 * 1024)))
  | .scalar (.decimal d) => .ok (some (.scalar (.decimal (d.times (1024 * 1024)))))
  | .scalar (.text _) => .ok none
  | .list _ => .ok none
  | v =>
    .error (.wrongType ("unsupported operand type(s) for *: '" ++ v.typeName ++ "' and 'int'"))

/-- What a configuration asks for. -/
def LogSettings.ofConfig (c : Config) : Except Fault LogSettings := do
  let directory ← c.logDirectory
  let level ← levelOfSetting (← c.logLevel) (.number 20)
  let subsystemLevels ← c.subsystemLevels
  let maxBytes ← bytesOf (← c.maxFileSize)
  let backups ← c.backupCount
  return { directory := directory, level := level, subsystemLevels := subsystemLevels,
           maxBytes := maxBytes, backups := backups }

/-- The whole arrangement. -/
structure LogSetup where
  loggers : List LoggerSetup
  /-- The directories that there are on the way to the files. -/
  directories : List FilePath
  /-- The directory could not be made. -/
  warned : Bool
  /-- Loggers are kept once they have been used. -/
  kept : Bool
  deriving Repr

/-- The directory for the files, if there is one, and the directories on the way to it. -/
structure LogPlace where
  directory : Option FilePath
  made : List FilePath
  deriving Repr

/-- The handler of a file, if there is a directory for it. The most bytes have to be a number, and
the file must not have the path of a directory that was made on the way. -/
def fileHandler (s : LogSettings) (place : LogPlace) (level : Nat) (name : String) :
    Except Fault (List LogHandler) :=
  match place.directory, s.maxBytes with
  | none, _ => .ok []
  | some _, none => .error (.wrongType "'>' not supported between these values")
  | some directory, some n =>
    let path := directory.child (name ++ ".log")
    if path ∈ place.made then .error (.directoryInPlace path.shown)
    else .ok [⟨level, some ⟨path, n, s.backups⟩⟩]

/-- The level that the settings ask for a subsystem. -/
def subsystemLevel (s : LogSettings) (name : String) : Except Fault LogLevel := do
  levelOfSetting (← Config.fieldOf s.subsystemLevels name .null) s.level

/-- A path as directories can be made on the way to it: no name holds the null character. -/
def checkPath (p : FilePath) : Except Fault Unit :=
  if p.parts.any fun n => n.toList.contains (Char.ofNat 0) then
    .error (.badValue "embedded null byte")
  else .ok ()

/-- The place of the files when the directory for them is made from a current directory. -/
def placeOf (directory current : FilePath) (plainFiles : List FilePath) : LogPlace where
  directory :=
    if current.canBeMade directory plainFiles then some (current.within directory) else none
  made := current.made directory plainFiles

/-- The arrangement in a current directory. The directory is made first, then the levels are put
to use, that of the console before those of the files. -/
def setUpLogs (s : LogSettings) (current : FilePath) (plainFiles : List FilePath) (kept : Bool) :
    Except Fault LogSetup := do
  checkPath s.directory
  let place := placeOf s.directory current plainFiles
  let general ← s.level.use
  let all ← fileHandler s place general "chainbot"
  let loggers ← Subsystem.all.mapM fun u => do
    let level ← (← subsystemLevel s u.name).use
    return (⟨u.logger, level, ← fileHandler s place level u.name⟩ : LoggerSetup)
  return { loggers := ⟨"root", 10, [⟨general, none⟩]⟩ :: ⟨"chainbot", 10, all⟩ :: loggers,
           directories := place.made, warned := place.directory.isNone, kept := kept }

/-- The directory of the log files before there is a configuration. -/
def defaultLogDirectory (current : FilePath) : FilePath := current.child "logs"

/-- The arrangement before there is a configuration. -/
def setUpDefaultLogs (current : FilePath) (plainFiles : List FilePath) : Except Fault LogSetup :=
  setUpLogs { directory := defaultLogDirectory current } current plainFiles false

/-- The arrangement of a configuration. -/
def setUpConfiguredLogs (c : Config) (plainFiles : List FilePath) : Except Fault LogSetup := do
  setUpLogs (← LogSettings.ofConfig c) c.directory plainFiles true

/-- The files that an arrangement writes. -/
def LogSetup.files (s : LogSetup) : List FilePath :=
  s.loggers.flatMap fun l => l.handlers.filterMap fun h => h.file.map LogFile.path

/-- The names that an arrangement puts into a directory, or nothing if it does not make one. -/
def LogSetup.madeIn (s : LogSetup) (directory : FilePath) : Option (List String) :=
  if s.directories.contains directory then
    some ((s.directories ++ s.files).filterMap fun p =>
      if p ≠ directory && directory.child p.name = p then some p.name else none).eraseDups
  else none

end ChatCommands
