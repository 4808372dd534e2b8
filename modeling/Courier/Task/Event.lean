/-
# Courier.Task.Event -- what happens to a task

The scheduler reports every step in the life of a task as an `Event`. An event becomes an entry of
the audit trail: its type, the task, a time, and details as a JSON value that depend on the type.
-/
import Courier.Json.Shape
import Courier.Task.Failure
import Courier.Task.Status

namespace Courier

/-- The types of audit entries. -/
inductive EventType where
  | submitted
  | started
  | retryScheduled
  | completed
  | failed
  | cancelled
  | interrupted
  | recovered
deriving DecidableEq, Repr

namespace EventType

def all : List EventType :=
  [.submitted, .started, .retryScheduled, .completed, .failed, .cancelled, .interrupted, .recovered]

def name : EventType → String
  | .submitted => "submitted"
  | .started => "started"
  | .retryScheduled => "retry_scheduled"
  | .completed => "completed"
  | .failed => "failed"
  | .cancelled => "cancelled"
  | .interrupted => "interrupted"
  | .recovered => "recovered"

def ofName? (s : String) : Option EventType :=
  all.find? fun t => t.name == s

theorem ofName?_name (t : EventType) : ofName? t.name = some t := by
  cases t <;> decide

end EventType

/-- A step in the life of a task. -/
inductive Event where
  | submitted (id kind title : String)
  | started (id : String) (attempt : Nat)
  | retryScheduled (id : String) (remaining : Nat) (failure : Failure)
  | completed (id : String) (bytes : Nat) (millis : Nat)
  | failed (id : String) (failure : Failure)
  | cancelled (id : String)
  /-- The worker was stopped by a shutdown; the task stays `running` for the next recovery. -/
  | interrupted (id : String)
  | recovered (id : String) (previous : Status)
deriving DecidableEq, Repr

namespace Event

def taskId : Event → String
  | .submitted id _ _ | .started id _ | .retryScheduled id _ _ | .completed id _ _
  | .failed id _ | .cancelled id | .interrupted id | .recovered id _ => id

def type : Event → EventType
  | .submitted .. => .submitted
  | .started .. => .started
  | .retryScheduled .. => .retryScheduled
  | .completed .. => .completed
  | .failed .. => .failed
  | .cancelled .. => .cancelled
  | .interrupted .. => .interrupted
  | .recovered .. => .recovered

/-- The details of an event, its members in order of their keys. -/
def details? : Event → Option Json
  | .submitted _ kind title => some (.obj [("kind", .str kind), ("title", .str title)])
  | .started _ attempt => some (.obj [("attempt", .int attempt)])
  | .retryScheduled _ remaining failure =>
    some (.obj [
      ("error_message", .str failure.message),
      ("error_type", .str failure.kind.name),
      ("remaining_retries", .int remaining)])
  | .completed _ bytes millis =>
    some (.obj [("bytes_written", .int bytes), ("duration_ms", .int millis)])
  | .failed _ failure =>
    some (.obj [("error_message", .str failure.message), ("error_type", .str failure.kind.name)])
  | .recovered _ previous => some (.obj [("previous_status", .str previous.name)])
  | .cancelled _ | .interrupted _ => none

/-- Is the event the report of an end? -/
def isTerminal : Event → Bool
  | .completed .. | .failed .. | .cancelled .. => true
  | _ => false

end Event

/-- An entry of the audit trail. -/
structure Entry where
  /-- Given by the store; unset until the entry is stored. -/
  id : Option Int
  taskId : String
  type : EventType
  timestamp : Int
  details : Option Json
deriving Repr

/-- The audit entry of an event. -/
def Event.entry (e : Event) (now : Int) : Entry where
  id := none
  taskId := e.taskId
  type := e.type
  timestamp := now
  details := e.details?

namespace Entry

def toJson (e : Entry) : Json :=
  .obj [
    ("id", match e.id with | none => .null | some z => .int z),
    ("task_id", .str e.taskId),
    ("event_type", .str e.type.name),
    ("timestamp", .int e.timestamp),
    ("details", e.details.getD .null)]

/-- An entry that is being read. -/
structure Part where
  id : Option (Option Int) := none
  taskId : Option String := none
  type : Option EventType := none
  timestamp : Option Int := none
  details : Option (Option Json) := none

/-- Reads one of the names of an event type. -/
def typeReader : Json.Reader EventType :=
  Json.oneName EventType.ofName? (EventType.all.map EventType.name)

/-- Details stand one level deep in their entry. -/
def detailsReader : Json.Reader (Option Json) :=
  Json.optional (Json.value (Json.maxDepth - 1))

def shape : Json.Shape Part Entry where
  name := "TaskEventRecord"
  start := {}
  fields := [
    { name := "id"
      isSet := fun p => p.id.isSome
      read := fun p s => (Json.optional Json.int64 s).map fun (x, s) => ({ p with id := some x }, s) },
    { name := "task_id"
      isSet := fun p => p.taskId.isSome
      read := fun p s => (Json.string s).map fun (x, s) => ({ p with taskId := some x }, s) },
    { name := "event_type"
      isSet := fun p => p.type.isSome
      read := fun p s => (typeReader s).map fun (x, s) => ({ p with type := some x }, s) },
    { name := "timestamp"
      isSet := fun p => p.timestamp.isSome
      read := fun p s => (Json.int64 s).map fun (x, s) => ({ p with timestamp := some x }, s) },
    { name := "details"
      isSet := fun p => p.details.isSome
      read := fun p s => (detailsReader s).map fun (x, s) => ({ p with details := some x }, s) }]
  finish := fun p => do
    let taskId ← Json.required "task_id" p.taskId
    let type ← Json.required "event_type" p.type
    let timestamp ← Json.required "timestamp" p.timestamp
    return ⟨p.id.join, taskId, type, timestamp, p.details.join⟩

/-- The entry that a JSON text describes. -/
def read (text : Bytes) : Except Json.Flaw Entry :=
  Json.readAll shape.reader text

end Entry

end Courier
