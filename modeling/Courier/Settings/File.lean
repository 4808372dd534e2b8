/-
# Courier.Settings.File -- what a settings file says

Every setting of the file may be left out, and so may every section. A section is usually a table, and
then settings that nobody knows are passed over. It may also be a list of its settings in their order,
of which later ones may be missing. A setting of the wrong kind makes the whole file unreadable.
-/
import Courier.Files.Path
import Courier.Toml.Document

namespace Courier.Settings

open Toml (Value Entries)

/-! ## Sections -/

/-- The settings of a section, by name or by place. -/
inductive Section where
  | named (entries : Entries)
  | placed (items : List Value)

namespace Section

/-- The settings of a value that stands for a section. A date has none of those that are asked for. -/
def ofValue? : Value → Option Section
  | .table _ entries => some (.named entries)
  | .array items => some (.placed items)
  | .tables elements => some (.placed (elements.map (.table .header)))
  | .moment _ => some (.named [])
  | _ => none

/-- A setting that may be left out; fails if it is there and cannot be read. -/
def setting {α : Type} (s : Section) (name : String) (place : Nat) (read : Value → Option α) :
    Option (Option α) :=
  let found :=
    match s with
    | .named entries => entries.get? name
    | .placed items => items[place]?
  match found with
  | none => some none
  | some v => (read v).map some

end Section

/-! ## Kinds of settings -/

def text : Value → Option String
  | .string s => some s
  | _ => none

def path (v : Value) : Option Path := (text v).map Path.ofText

/-- A whole number from zero up to a limit. -/
def natural (limit : Nat) : Value → Option Nat
  | .integer z => if 0 ≤ z && z.toNat ≤ limit then some z.toNat else none
  | _ => none

def integer : Value → Option Int
  | .integer z => some z
  | _ => none

def integers : Value → Option (List Int)
  | .array items => items.mapM integer
  | _ => none

def boolean : Value → Option Bool
  | .boolean b => some b
  | _ => none

/-- The largest numbers of 32 and of 64 bits. -/
def max32 : Nat := twoTo 32 - 1

def max64 : Nat := twoTo 64 - 1

/-! ## The sections of the file -/

structure SchedulerSection where
  workers : Option Nat := none
  maxRetries : Option Nat := none
  shutdownTimeoutSecs : Option Nat := none
  rescanIntervalSecs : Option Nat := none
deriving DecidableEq, Repr

structure HealthSection where
  checkIntervalSecs : Option Nat := none
  maxRetries : Option Nat := none
  failureThreshold : Option Nat := none
deriving DecidableEq, Repr

structure AdminSection where
  recipients : Option (List Int) := none
deriving DecidableEq, Repr

structure TransportSection where
  probeUrl : Option String := none
  webhookUrl : Option String := none
  timeoutSecs : Option Nat := none
deriving DecidableEq, Repr

structure StorageSection where
  base : Option Path := none
deriving DecidableEq, Repr

structure AuditSection where
  enabled : Option Bool := none
  buffer : Option Nat := none
deriving DecidableEq, Repr

def SchedulerSection.ofSection (s : Section) : Option SchedulerSection := do
  some {
    workers := ← s.setting "workers" 0 (natural max64)
    maxRetries := ← s.setting "max_retries" 1 (natural max32)
    shutdownTimeoutSecs := ← s.setting "shutdown_timeout_secs" 2 (natural max64)
    rescanIntervalSecs := ← s.setting "rescan_interval_secs" 3 (natural max64) }

def HealthSection.ofSection (s : Section) : Option HealthSection := do
  some {
    checkIntervalSecs := ← s.setting "check_interval_secs" 0 (natural max64)
    maxRetries := ← s.setting "max_retries" 1 (natural max32)
    failureThreshold := ← s.setting "failure_threshold" 2 (natural max32) }

def AdminSection.ofSection (s : Section) : Option AdminSection := do
  some { recipients := ← s.setting "recipients" 0 integers }

def TransportSection.ofSection (s : Section) : Option TransportSection := do
  some {
    probeUrl := ← s.setting "probe_url" 0 text
    webhookUrl := ← s.setting "webhook_url" 1 text
    timeoutSecs := ← s.setting "timeout_secs" 2 (natural max64) }

def StorageSection.ofSection (s : Section) : Option StorageSection := do
  some { base := ← s.setting "local_base_dir" 0 path }

def AuditSection.ofSection (s : Section) : Option AuditSection := do
  some {
    enabled := ← s.setting "enabled" 0 boolean
    buffer := ← s.setting "buffer" 1 (natural max64) }

/-- What a settings file says. -/
structure File where
  databaseDir : Option Path := none
  scheduler : Option SchedulerSection := none
  health : Option HealthSection := none
  admin : Option AdminSection := none
  transport : Option TransportSection := none
  storage : Option StorageSection := none
  audit : Option AuditSection := none
deriving DecidableEq, Repr

namespace File

/-- Reads the entries of the whole file. -/
def ofEntries? (entries : Entries) : Option File := do
  let all := Section.named entries
  some {
    databaseDir := ← all.setting "db_dir" 0 path
    scheduler := ← all.setting "scheduler" 1 (within SchedulerSection.ofSection)
    health := ← all.setting "health" 2 (within HealthSection.ofSection)
    admin := ← all.setting "admin" 3 (within AdminSection.ofSection)
    transport := ← all.setting "transport" 4 (within TransportSection.ofSection)
    storage := ← all.setting "storage" 5 (within StorageSection.ofSection)
    audit := ← all.setting "audit" 6 (within AuditSection.ofSection) }
where
  /-- Reads a section inside another one. -/
  within {α : Type} (read : Section → Option α) (v : Value) : Option α :=
    (Section.ofValue? v).bind read

/-- Reads the text of the file. -/
def ofText? (s : String) : Option File :=
  (Toml.parse? s).bind ofEntries?

end File

end Courier.Settings
