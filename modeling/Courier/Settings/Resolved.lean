/-
# Courier.Settings.Resolved -- the settings that hold

A setting comes from the settings file; if it is not there, from the command line; and if it is not
there either, it has a default. The result is refused if the database directory is missing or if a
number that has to be positive is zero. The checks are made in the order in which the settings are
found, so the first fault is the one that is told.
-/
import Courier.Files.Volume
import Courier.Health.Monitor
import Courier.Settings.File
import Courier.Text.Quoted

namespace Courier.Settings

/-! ## Problems -/

/-- Why there are no settings. -/
inductive Problem where
  /-- The settings file cannot be read, or is no text. -/
  | unreadable (file : Path)
  /-- The settings file is not written as it should be. -/
  | malformed (file : Path)
  | noDatabaseDir
  | missingDatabaseDir (dir : Path)
  | databaseDirNotDirectory (dir : Path)
  | noWorkers
  | noCheckInterval
  | storageBaseNotDirectory (dir : Path)
deriving DecidableEq, Repr

def Problem.message : Problem → String
  | .unreadable file => "Failed to read config file: " ++ Text.quoted file.text
  | .malformed file => "Failed to parse config file: " ++ Text.quoted file.text
  | .noDatabaseDir => "db_dir must be specified via --db-dir or in config file"
  | .missingDatabaseDir dir => "Database directory does not exist: " ++ Text.quoted dir.text
  | .databaseDirNotDirectory dir => "db_dir is not a directory: " ++ Text.quoted dir.text
  | .noWorkers => "scheduler.workers must be at least 1"
  | .noCheckInterval => "health.check_interval_secs must be at least 1"
  | .storageBaseNotDirectory dir => "Storage base is not a directory: " ++ Text.quoted dir.text

/-! ## Settings -/

/-- Settings of the scheduler. -/
structure Scheduling where
  /-- How many tasks may run at once. -/
  workers : Nat := 3
  /-- How many attempts a task has after its first one. -/
  maxRetries : Nat := 2
  /-- How long a shutdown waits for running tasks. -/
  shutdownTimeoutSecs : Nat := 30
  /-- How often the store is searched for tasks that others have put there; zero means never. -/
  rescanIntervalSecs : Nat := 60
deriving DecidableEq, Repr

/-- What the command line says. -/
structure Arguments where
  databaseDir : Option Path := none
  storageDir : Option Path := none
  workers : Nat := ({} : Scheduling).workers
  maxRetries : Nat := ({} : Scheduling).maxRetries
  checkIntervalSecs : Nat := ({} : Health.Settings).intervalSecs
  recipients : List Int := []
  probeUrl : Option String := none
  webhookUrl : Option String := none
deriving DecidableEq, Repr

/-- The settings that hold. -/
structure Resolved where
  databaseDir : Path
  scheduling : Scheduling
  health : Health.Settings
  recipients : List Int
  probeUrl : Option String
  webhookUrl : Option String
  timeoutSecs : Nat
  storageBase : Path
  auditEnabled : Bool
  /-- How many events wait for the audit log at most; at least one. -/
  auditBuffer : Nat
deriving DecidableEq, Repr

/-- How long a request to the chat gateway may take. -/
def defaultTimeoutSecs : Nat := 10

def defaultAuditBuffer : Nat := 256

/-- The file of the task database. -/
def Resolved.databasePath (s : Resolved) : Path :=
  s.databaseDir.join (Path.ofText "tasks.db")

/-! ## Finding them -/

/-- Reads a settings file. -/
def load (v : Volume) (cwd : Location) (file : Path) : Except Problem File :=
  match v.read cwd file with
  | .ok (.bytes b) =>
    match Utf8.decode? b with
    | none => .error (.unreadable file)
    | some text =>
      match File.ofText? text with
      | none => .error (.malformed file)
      | some f => .ok f
  | _ => .error (.unreadable file)

/-- Combines a settings file and the command line. -/
def resolve (v : Volume) (cwd : Location) (arguments : Arguments) (file : File) :
    Except Problem Resolved := do
  let some databaseDir := file.databaseDir <|> arguments.databaseDir | throw .noDatabaseDir
  unless v.doesExist cwd databaseDir do throw (.missingDatabaseDir databaseDir)
  unless v.isDirectory cwd databaseDir do throw (.databaseDirNotDirectory databaseDir)
  let fromFile := file.scheduler.getD {}
  let usual : Scheduling := {}
  let scheduling : Scheduling :=
    { workers := fromFile.workers.getD arguments.workers
      maxRetries := fromFile.maxRetries.getD arguments.maxRetries
      shutdownTimeoutSecs := fromFile.shutdownTimeoutSecs.getD usual.shutdownTimeoutSecs
      rescanIntervalSecs := fromFile.rescanIntervalSecs.getD usual.rescanIntervalSecs }
  if scheduling.workers = 0 then throw .noWorkers
  let fromFile := file.health.getD {}
  let usual : Health.Settings := {}
  let health : Health.Settings :=
    { intervalSecs := fromFile.checkIntervalSecs.getD arguments.checkIntervalSecs
      maxRetries := fromFile.maxRetries.getD usual.maxRetries
      failureThreshold := fromFile.failureThreshold.getD usual.failureThreshold }
  if health.intervalSecs = 0 then throw .noCheckInterval
  let transport := file.transport.getD {}
  let base := ((file.storage.bind (·.base)) <|> arguments.storageDir).getD
    (databaseDir.join (Path.ofText "files"))
  if v.doesExist cwd base && !v.isDirectory cwd base then throw (.storageBaseNotDirectory base)
  let audit := file.audit.getD {}
  return {
    databaseDir
    scheduling
    health
    recipients := (file.admin.bind (·.recipients)).getD arguments.recipients
    probeUrl := transport.probeUrl <|> arguments.probeUrl
    webhookUrl := transport.webhookUrl <|> arguments.webhookUrl
    timeoutSecs := transport.timeoutSecs.getD defaultTimeoutSecs
    storageBase := base
    auditEnabled := audit.enabled.getD true
    auditBuffer := max (audit.buffer.getD defaultAuditBuffer) 1 }

end Courier.Settings
