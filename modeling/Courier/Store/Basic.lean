/-
# Courier.Store.Basic -- task records and their audit trail

The store is two tables: one row per task and one row per audit entry. A row can hold a status or an
event type that no version of the program writes, and a whole table can be missing; neither is
noticed before a query reaches it. Every operation returns a new store or the reason why the store
stays as it is, so a refused operation never leaves half of its work behind.

The columns are typed here. Those of the database are not: another tool can leave a value of any class in
any column, and a query that reads it fails. Tables with such rows are in `Courier.Store.Cells`, and so are
the queries on them; the queries here are theirs on the tables of a store.

Queries sort rows by time. The database leaves the order of rows with equal times open, as the queries in
`Courier.Store.Cells` do; here they keep the order in which they were first written.
-/
import Courier.Task.Event
import Courier.Task.Record

namespace Courier

/-! ## Tables -/

/-- A text column that should hold one of the names of `α`. -/
inductive Column (α : Type) where
  | known (value : α)
  | foreign (text : String)
deriving DecidableEq, Repr

def Column.ofText {α : Type} (named? : String → Option α) (text : String) : Column α :=
  match named? text with
  | some x => .known x
  | none => .foreign text

/-- A row of the task table whose columns hold what they are declared for: a record whose status column may be
foreign. -/
structure Row where
  id : String
  title : String
  kind : String
  payload : Bytes
  status : Column Status
  createdAt : Int
  updatedAt : Int
  completedAt : Option Int
  error : String
deriving DecidableEq, Repr

/-- A row of the audit table whose columns hold what they are declared for: an entry whose type may be foreign and
whose details are a text. -/
structure Mark where
  id : Int
  taskId : String
  type : Column EventType
  timestamp : Int
  details : Option String
deriving DecidableEq, Repr

/-- The two tables; a missing one is `none`. -/
structure Store where
  rows? : Option (List Row) := some []
  marks? : Option (List Mark) := some []
deriving DecidableEq, Repr

/-- Why the store refuses an operation. -/
inductive Store.Error where
  | notFound (id : String)
  | unavailable (reason : String)
  /-- The database itself fails: a table is missing, or a column holds a value of another class than is asked of it. -/
  | database
  | foreignStatus (text : String)
  | foreignEventType (text : String)
deriving DecidableEq, Repr

/-- The wording of a refusal; the database has its own words for its failures. -/
def Store.Error.message? : Store.Error → Option String
  | .notFound id => some ("Task not found: " ++ id)
  | .unavailable reason => some ("Store unavailable: " ++ reason)
  | .database => none
  | .foreignStatus text =>
    some ("Database error: Conversion error from type Text at index: 3, unknown task status '" ++
      text ++ "'")
  | .foreignEventType text =>
    some ("Database error: Conversion error from type Text at index: 2, unknown event type '" ++
      text ++ "'")

/-! ## Rows read and written -/

def Record.row (r : Record) : Row where
  id := r.id
  title := r.title
  kind := r.kind
  payload := r.payload
  status := .known r.status
  createdAt := r.createdAt
  updatedAt := r.updatedAt
  completedAt := r.completedAt
  error := r.error

/-- The record in a row, unless its status is foreign. -/
def Row.record (row : Row) : Except Store.Error Record :=
  match row.status with
  | .foreign text => .error (.foreignStatus text)
  | .known status => .ok
    { id := row.id, title := row.title, kind := row.kind, payload := row.payload, status,
      createdAt := row.createdAt, updatedAt := row.updatedAt, completedAt := row.completedAt,
      error := row.error }

@[simp] theorem Record.record_row (r : Record) : r.row.record = .ok r := rfl

/-- A row moved to another status, as `Record.moved` does it. -/
def Row.moved (row : Row) (status : Status) (error : String) (now : Int) : Row :=
  { row with
    status := .known status
    updatedAt := now
    completedAt := if status.isTerminal then some now else none
    error := if status = .failed then error else "" }

theorem Record.row_moved (r : Record) (status : Status) (error : String) (now : Int) :
    (r.moved status error now).row = r.row.moved status error now := rfl

/-- Does the task still have work to do? Foreign statuses do not say so. -/
def Row.isUnfinished (row : Row) : Bool :=
  row.status == .known .pending || row.status == .known .running

/-- The entry in a row, unless its type is foreign. Details that are no JSON text read as absent. -/
def Mark.entry (mark : Mark) : Except Store.Error Entry :=
  match mark.type with
  | .foreign text => .error (.foreignEventType text)
  | .known type => .ok
    { id := some mark.id, taskId := mark.taskId, type, timestamp := mark.timestamp
      details := mark.details.bind fun t => (Json.parse (Utf8.encode t)).toOption }

namespace Store

/-- A store with no task and no entry. -/
def empty : Store := {}

def rows (s : Store) : Except Error (List Row) :=
  match s.rows? with
  | some rows => .ok rows
  | none => .error .database

def marks (s : Store) : Except Error (List Mark) :=
  match s.marks? with
  | some marks => .ok marks
  | none => .error .database

/-- The first rows of a result. A limit past the signed range is no limit. -/
def limited {α : Type} (limit : Nat) (xs : List α) : List α :=
  if limit < twoTo 63 then xs.take limit else xs

/-- Rows by time of creation, oldest first. -/
def oldestFirst (rows : List Row) : List Row :=
  rows.mergeSort fun a b => a.createdAt ≤ b.createdAt

/-- Rows by time of creation, newest first. -/
def newestFirst (rows : List Row) : List Row :=
  rows.mergeSort fun a b => b.createdAt ≤ a.createdAt

/-- Audit rows by time, then by the order in which they were logged. -/
def inOrder (marks : List Mark) : List Mark :=
  marks.mergeSort fun a b => a.timestamp < b.timestamp || (a.timestamp == b.timestamp && a.id ≤ b.id)

/-! ## Records -/

/-- Replaces the row with the same id, or adds the row at the end. -/
def upsert (row : Row) : List Row → List Row
  | [] => [row]
  | r :: rest => if r.id = row.id then row :: rest else r :: upsert row rest

/-- Inserts a record or replaces the one with its id. -/
def put (s : Store) (r : Record) : Except Error Store := do
  let rows ← s.rows
  return { s with rows? := some (upsert r.row rows) }

def get (s : Store) (id : String) : Except Error Record := do
  let rows ← s.rows
  match rows.find? fun r => r.id = id with
  | some row => row.record
  | none => throw (.notFound id)

/-- The tasks that still have work to do, oldest first. -/
def listPending (s : Store) : Except Error (List Record) := do
  let rows ← s.rows
  (oldestFirst (rows.filter Row.isUnfinished)).mapM Row.record

/-- The tasks with a given status, or all of them, newest first. -/
def list (s : Store) (status : Option Status) (limit : Nat) : Except Error (List Record) := do
  let rows ← s.rows
  let wanted :=
    match status with
    | none => rows
    | some st => rows.filter fun r => r.status = .known st
  (limited limit (newestFirst wanted)).mapM Row.record

/-- Moves a task to a status, any status to any other. -/
def updateStatus (s : Store) (id : String) (status : Status) (error : String) (now : Int) :
    Except Error Store := do
  let rows ← s.rows
  if rows.any fun r => r.id = id then
    return { s with
      rows? := some (rows.map fun r => if r.id = id then r.moved status error now else r) }
  else throw (.notFound id)

/-- Removes a task together with its entries, both or neither. The entries go even when the task is
unknown; that it was unknown is still the answer. -/
def delete (s : Store) (id : String) : Except Error Unit × Store :=
  match s.rows?, s.marks? with
  | some rows, some marks =>
    (if rows.any fun r => r.id = id then .ok () else .error (.notFound id),
      { rows? := some (rows.filter fun r => r.id ≠ id)
        marks? := some (marks.filter fun m => m.taskId ≠ id) })
  | _, _ => (.error .database, s)

/-! ## Audit trail -/

/-- One more than the greatest id in use; the ids of removed rows at the end are given out again. -/
def nextMarkId (marks : List Mark) : Int :=
  marks.foldl (fun n m => max n m.id) 0 + 1

/-- Appends an entry; the store gives it an id. -/
def logEvent (s : Store) (e : Entry) : Except Error Store := do
  let marks ← s.marks
  let mark : Mark :=
    { id := nextMarkId marks, taskId := e.taskId, type := .known e.type, timestamp := e.timestamp
      details := e.details.map Json.text }
  return { s with marks? := some (marks ++ [mark]) }

/-- The entries of a task, oldest first. -/
def eventsFor (s : Store) (id : String) (limit : Nat) : Except Error (List Entry) := do
  let marks ← s.marks
  (limited limit (inOrder (marks.filter fun m => m.taskId = id))).mapM Mark.entry

end Store

end Courier
