/-
# Courier.Task.Record -- the durable record of a task

A record says what a task is, where it stands and when it got there; times are Unix milliseconds. Its
JSON text has the fields in declared order, the payload as a list of byte values.
-/
import Courier.Json.Shape
import Courier.Task.Status

namespace Courier

/-- The durable record of a task. -/
structure Record where
  id : String
  title : String
  kind : String
  payload : Bytes
  status : Status
  createdAt : Int
  updatedAt : Int
  completedAt : Option Int
  /-- The last failure, empty unless the task failed. -/
  error : String
deriving DecidableEq, Repr

namespace Record

/-- A new task that waits for its first attempt. -/
def new (id kind : String) (payload : Bytes) (title : String) (now : Int) : Record where
  id
  title
  kind
  payload
  status := .pending
  createdAt := now
  updatedAt := now
  completedAt := none
  error := ""

/-- A later status: the time of an end is kept with it, and only a failure keeps a text. -/
def moved (r : Record) (status : Status) (error : String) (now : Int) : Record :=
  { r with
    status
    updatedAt := now
    completedAt := if status.isTerminal then some now else none
    error := if status = .failed then error else "" }

def optionalInt : Option Int → Json
  | none => .null
  | some z => .int z

def toJson (r : Record) : Json :=
  .obj [
    ("id", .str r.id),
    ("title", .str r.title),
    ("kind", .str r.kind),
    ("payload", .arr (r.payload.map fun b => .int b.toNat)),
    ("status", .str r.status.name),
    ("created_at", .int r.createdAt),
    ("updated_at", .int r.updatedAt),
    ("completed_at", optionalInt r.completedAt),
    ("error", .str r.error)]

/-- A record that is being read. -/
structure Part where
  id : Option String := none
  title : Option String := none
  kind : Option String := none
  payload : Option Bytes := none
  status : Option Status := none
  createdAt : Option Int := none
  updatedAt : Option Int := none
  completedAt : Option (Option Int) := none
  error : Option String := none

/-- Reads one of the names of a status. -/
def statusReader : Json.Reader Status :=
  Json.oneName Status.ofName? (Status.all.map Status.name)

def shape : Json.Shape Part Record where
  name := "TaskState"
  start := {}
  fields := [
    { name := "id"
      isSet := fun p => p.id.isSome
      read := fun p s => (Json.string s).map fun (x, s) => ({ p with id := some x }, s) },
    { name := "title"
      isSet := fun p => p.title.isSome
      read := fun p s => (Json.string s).map fun (x, s) => ({ p with title := some x }, s) },
    { name := "kind"
      isSet := fun p => p.kind.isSome
      read := fun p s => (Json.string s).map fun (x, s) => ({ p with kind := some x }, s) },
    { name := "payload"
      isSet := fun p => p.payload.isSome
      read := fun p s => (Json.bytes s).map fun (x, s) => ({ p with payload := some x }, s) },
    { name := "status"
      isSet := fun p => p.status.isSome
      read := fun p s => (statusReader s).map fun (x, s) => ({ p with status := some x }, s) },
    { name := "created_at"
      isSet := fun p => p.createdAt.isSome
      read := fun p s => (Json.int64 s).map fun (x, s) => ({ p with createdAt := some x }, s) },
    { name := "updated_at"
      isSet := fun p => p.updatedAt.isSome
      read := fun p s => (Json.int64 s).map fun (x, s) => ({ p with updatedAt := some x }, s) },
    { name := "completed_at"
      isSet := fun p => p.completedAt.isSome
      read := fun p s =>
        (Json.optional Json.int64 s).map fun (x, s) => ({ p with completedAt := some x }, s) },
    { name := "error"
      isSet := fun p => p.error.isSome
      read := fun p s => (Json.string s).map fun (x, s) => ({ p with error := some x }, s) }]
  finish := fun p => do
    let id ← Json.required "id" p.id
    let title ← Json.required "title" p.title
    let kind ← Json.required "kind" p.kind
    let payload ← Json.required "payload" p.payload
    let status ← Json.required "status" p.status
    let createdAt ← Json.required "created_at" p.createdAt
    let updatedAt ← Json.required "updated_at" p.updatedAt
    let error ← Json.required "error" p.error
    return ⟨id, title, kind, payload, status, createdAt, updatedAt, p.completedAt.join, error⟩

/-- The record that a JSON text describes. -/
def read (text : Bytes) : Except Json.Flaw Record :=
  Json.readAll shape.reader text

end Record

end Courier
