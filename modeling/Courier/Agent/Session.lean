/-
# Courier.Agent.Session -- the agent from its start to its end

Starting takes five steps, and the first one that fails ends the agent: find the settings, open the
task database, look for the addresses of the chat gateway, make the storage directory, and take over
the tasks that an earlier agent has left. What the steps before it have made stays.

A session that is interrupted before its first probe of the gateway has dispatched nothing, because
the link is not known to be up. All that it leaves is the takeover and its audit trail.
-/
import Courier.Agent.Line
import Courier.Audit.Logger
import Courier.CommandLine.Outcome
import Courier.Scheduler.Request
import Courier.Store.Opened

namespace Courier.Agent

open CommandLine (Outcome)

/-! ## Problems -/

/-- Why the agent does not start. -/
inductive Problem where
  | settings (e : Settings.Problem)
  | database (e : Schema.Error) (file : Path)
  /-- An address of the chat gateway is missing. -/
  | noGateway
  | storageDir (dir : Path)
  | takeover (e : Scheduler.Refusal)
deriving Repr

/-- The wording of a problem. The database has its own words for a file that it cannot open. -/
def Problem.message : Problem → String
  | .settings e => e.message
  | .database e file => e.message?.getD ("unable to open database file: " ++ file.text)
  | .noGateway => "Both transport.probe_url and transport.webhook_url must be configured"
  | .storageDir dir => "Failed to create storage directory " ++ Text.quoted dir.text
  | .takeover e => e.message?.getD "Database error"

/-! ## Starting -/

/-- The kind of task that the agent carries out: a download into the storage directory, which can
be rolled back. -/
def kinds : Registry Scheduler.Handler := .ofList [("http", ⟨true⟩)]

/-- The settings of the scheduler. -/
def setupOf (s : Settings.Resolved) : Scheduler.Setup where
  workers := s.scheduling.workers
  maxRetries := s.scheduling.maxRetries
  kinds := kinds

/-- A running agent. -/
structure Session where
  settings : Settings.Resolved
  probeUrl : String
  webhookUrl : String
  scheduler : Scheduler.State
  pipeline : Option Audit.Pipeline
  taken : Nat
deriving Repr

/-- The settings that hold. -/
def findSettings (v : Volume) (cwd : Location) (line : Line) : Except Problem Settings.Resolved := do
  let file ←
    match line.settingsFile with
    | none => pure {}
    | some p => (Settings.load v cwd p).mapError .settings
  (Settings.resolve v cwd line.arguments file).mapError .settings

/-- The scheduler of a new agent; the link is not known yet. -/
def schedulerOf (setup : Scheduler.Setup) (store : Store) (now : Int) : Scheduler.State :=
  { Scheduler.State.init setup { store } with link := .unknown, now }

/-- Takes over unfinished tasks and reports them: their number, and the scheduler after that. -/
def takeOver (setup : Scheduler.Setup) (s : Scheduler.State) :
    Except Problem Nat × Scheduler.State :=
  match s.recover setup with
  | (.error e, s) => (.error (.takeover e), s)
  | (.ok n, s) =>
    let effects := (s.calls.head?).getD []
    (.ok n, { effects.foldl Scheduler.State.perform s with calls := s.calls.tail })

/-- The audit pipeline after some events; the logger keeps up with them. -/
def audited (capacity : Nat) (events : List Event) : Audit.Pipeline :=
  ({ channel := { capacity } } : Audit.Pipeline).run (events.flatMap fun e => [.record e, .take])

/-- Starts an agent. -/
def start (v : Volume) (cwd : Location) (now : Int) (line : Line) :
    Except Problem Session × Volume :=
  match findSettings v cwd line with
  | .error e => (.error e, v)
  | .ok settings =>
    match Store.openFile v cwd settings.databasePath with
    | (.error e, v) => (.error (.database e settings.databasePath), v)
    | (.ok store, v) =>
      match settings.probeUrl, settings.webhookUrl with
      | some probeUrl, some webhookUrl =>
        match v.ensureDirectory cwd settings.storageBase with
        | (.error _, v) => (.error (.storageDir settings.storageBase), v)
        | (.ok (), v) =>
          let setup := setupOf settings
          match takeOver setup (schedulerOf setup store now) with
          | (.error e, s) => (.error e, Store.save v cwd settings.databasePath s.disk.store)
          | (.ok taken, scheduler) =>
            let pipeline :=
              if settings.auditEnabled then some (audited settings.auditBuffer scheduler.events)
              else none
            (.ok { settings, probeUrl, webhookUrl, scheduler, pipeline, taken },
              Store.save v cwd settings.databasePath scheduler.disk.store)
      | _, _ => (.error .noGateway, v)

namespace Session

/-- Who hears about the session. -/
def notifier (s : Session) : Notifier := ⟨true, s.settings.recipients⟩

/-- The disk of a session that ends: the audit trail holds what the logger has taken. -/
def closed (s : Session) (now : Int) : Disk :=
  let logged := ((s.pipeline.map (·.settle true)).map (·.logged)).getD []
  logged.foldl (fun d e => Audit.log d e now) s.scheduler.disk

/-- Ends a session before its first probe of the gateway. -/
def finish (s : Session) (v : Volume) (cwd : Location) (now : Int) : Volume :=
  Store.save v cwd s.settings.databasePath (s.closed now).store

end Session

/-! ## Calls -/

/-- What is said to a command line that the agent does not know. -/
def usage : String :=
  "Usage: [--config <CONFIG>] [--db-dir <DB_DIR>] [--storage-dir <STORAGE_DIR>]
       [--workers <WORKERS>] [--max-retries <MAX_RETRIES>]
       [--check-interval-secs <CHECK_INTERVAL_SECS>] [--admin-id <ADMIN_IDS>]...
       [--probe-url <PROBE_URL>] [--webhook-url <WEBHOOK_URL>]
"

/-- One call of the agent that is interrupted before its first probe of the gateway, if it gets so
far. -/
def call (v : Volume) (cwd : Location) (now : Int) (arguments : List String) : Outcome × Volume :=
  match Line.read v cwd arguments with
  | .error r => (CommandLine.refused usage r, v)
  | .ok line =>
    match start v cwd now line with
    | (.error e, v) => (.failure e.message, v)
    | (.ok session, v) => ({ code := 0 }, session.finish v cwd now)

end Courier.Agent
