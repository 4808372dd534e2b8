/-
# Courier.Store.Cells -- the tables as the database holds them

A column of the database has a declared type, and a row can still hold a value of any other storage
class in it: a text as the payload, bytes as the title, no id at all. A `Store` has the rows whose columns
hold what they are declared for; this program writes no others. Here a row is a row of cells, and a query is
what its statement says of them: a condition compares a column with a text, an order is the one that the
database has on all values, and a row of the result is converted column by column, up to the first column
that does not hold what is asked of it.

A statement that orders by a time says nothing of rows with equal times; the database gives them as the
index gives them that it happens to use. So a query is a relation: it may answer with any arrangement of its
rows that its order allows. A `Store` gives one of them.
-/
import Courier.Store.Basic
import Mathlib.Algebra.Order.Ring.Rat
import Mathlib.Data.List.Lex
import Mathlib.Data.Prod.Lex

namespace Courier

/-! ## Values -/

/-- A value of the database. -/
inductive Cell where
  | null
  | integer (value : Int)
  | real (value : Rat)
  | infinite (positive : Bool)
  | text (value : String)
  /-- A text whose bytes are no UTF-8. -/
  | garbled (bytes : Bytes)
  | blob (bytes : Bytes)
deriving DecidableEq, Repr

namespace Cell

/-- The place of a value's class; the infinities stand around the numbers. -/
def rank : Cell → Nat
  | .null => 0
  | .infinite false => 1
  | .integer _ | .real _ => 2
  | .infinite true => 3
  | .text _ | .garbled _ => 4
  | .blob _ => 5

def number : Cell → Rat
  | .integer z => z
  | .real q => q
  | _ => 0

def bytes : Cell → Bytes
  | .text s => Utf8.encode s
  | .garbled b | .blob b => b
  | _ => []

/-- The database orders values by class, numbers by size, and everything else byte by byte. -/
def key (x : Cell) : Nat ×ₗ Rat ×ₗ List Nat := toLex (x.rank, toLex (x.number, x.bytes.map UInt8.toNat))

/-! ### What a column is asked for -/

/-- The text in a column. A value of another class is the failure of the whole query. -/
def asText : Cell → Except Store.Error String
  | .text s => .ok s
  | _ => .error .database

def asBytes : Cell → Except Store.Error Bytes
  | .blob b => .ok b
  | _ => .error .database

def asInteger : Cell → Except Store.Error Int
  | .integer z => .ok z
  | _ => .error .database

def orNull {α : Type} (read : Cell → Except Store.Error α) : Cell → Except Store.Error (Option α)
  | .null => .ok none
  | x => (read x).map some

end Cell

/-! ## Rows -/

/-- A row of the task table. -/
structure TaskCells where
  id : Cell
  title : Cell
  kind : Cell
  status : Cell
  payload : Cell
  createdAt : Cell
  updatedAt : Cell
  completedAt : Cell
  error : Cell
deriving DecidableEq, Repr

/-- A row of the audit table. -/
structure EventCells where
  id : Cell
  taskId : Cell
  type : Cell
  timestamp : Cell
  details : Cell
deriving DecidableEq, Repr

/-- The value that a text names, or the failure that it names none. -/
def Store.Error.unless {α : Type} (named? : String → Option α) (failure : String → Store.Error)
    (text : String) : Except Store.Error α :=
  match named? text with
  | some x => .ok x
  | none => .error (failure text)

/-- The record in a row. The status is looked at first and understood in its place among the others. -/
def TaskCells.record (row : TaskCells) : Except Store.Error Record := do
  let statusText ← row.status.asText
  let id ← row.id.asText
  let title ← row.title.asText
  let kind ← row.kind.asText
  let payload ← row.payload.asBytes
  let status ← Store.Error.unless Status.ofName? .foreignStatus statusText
  let createdAt ← row.createdAt.asInteger
  let updatedAt ← row.updatedAt.asInteger
  let completedAt ← row.completedAt.orNull Cell.asInteger
  let error ← row.error.asText
  return { id, title, kind, payload, status, createdAt, updatedAt, completedAt, error }

/-- The entry in a row; details that are no JSON text read as absent. -/
def EventCells.entry (row : EventCells) : Except Store.Error Entry := do
  let typeText ← row.type.asText
  let detailsText ← row.details.orNull Cell.asText
  let id ← row.id.orNull Cell.asInteger
  let taskId ← row.taskId.asText
  let type ← Store.Error.unless EventType.ofName? .foreignEventType typeText
  let timestamp ← row.timestamp.asInteger
  return { id, taskId, type, timestamp, details := detailsText.bind fun t => (Json.parse (Utf8.encode t)).toOption }

/-- Does the task still have work to do? -/
def TaskCells.isUnfinished (row : TaskCells) : Bool :=
  row.status == .text Status.pending.name || row.status == .text Status.running.name

/-! ## Queries -/

/-- The two tables; a missing one is `none`. -/
structure Database where
  tasks? : Option (List TaskCells) := some []
  events? : Option (List EventCells) := some []
deriving DecidableEq, Repr

/-- What a statement asks of a table. -/
structure Query (α : Type) where
  wanted : α → Bool
  /-- May the first row stand before the second? -/
  before : α → α → Prop
  limit : Option Nat := none

namespace Query

variable {α β : Type}

/-- The rows that the query has, in an order that it allows. -/
structure Arranges (q : Query α) (table arranged : List α) : Prop where
  perm : arranged.Perm (table.filter q.wanted)
  ordered : arranged.Pairwise q.before

/-- The first rows, as many as the query wants. -/
def cut (q : Query α) (arranged : List α) : List α :=
  match q.limit with
  | none => arranged
  | some limit => Store.limited limit arranged

/-- What the query may answer on a table. -/
def Answers (q : Query α) (convert : α → Except Store.Error β) (table? : Option (List α))
    (answer : Except Store.Error (List β)) : Prop :=
  match table? with
  | none => answer = .error .database
  | some table => ∃ arranged, q.Arranges table arranged ∧ answer = (q.cut arranged).mapM convert

/-- The tasks with a given status, or all of them, newest first. -/
def tasks (status : Option Status) (limit : Nat) : Query TaskCells where
  wanted row :=
    match status with
    | none => true
    | some status => row.status == .text status.name
  before a b := b.createdAt.key ≤ a.createdAt.key
  limit := some limit

/-- The tasks that still have work to do, oldest first. -/
def unfinished : Query TaskCells where
  wanted := TaskCells.isUnfinished
  before a b := a.createdAt.key ≤ b.createdAt.key

/-- The entries of a task, by time and then by id. -/
def trail (id : String) (limit : Nat) : Query EventCells where
  wanted row := row.taskId == .text id
  before a b := toLex (a.timestamp.key, a.id.key) ≤ toLex (b.timestamp.key, b.id.key)
  limit := some limit

end Query

namespace Database

/-- The row of an id. -/
def row? (d : Database) (id : String) : Option TaskCells :=
  (d.tasks?.getD []).find? fun row => row.id == .text id

def get (d : Database) (id : String) : Except Store.Error Record :=
  match d.tasks? with
  | none => .error .database
  | some _ =>
    match d.row? id with
    | some row => row.record
    | none => .error (.notFound id)

def Lists (d : Database) (status : Option Status) (limit : Nat) : Except Store.Error (List Record) → Prop :=
  (Query.tasks status limit).Answers TaskCells.record d.tasks?

def ListsPending (d : Database) : Except Store.Error (List Record) → Prop :=
  Query.unfinished.Answers TaskCells.record d.tasks?

def Trails (d : Database) (id : String) (limit : Nat) : Except Store.Error (List Entry) → Prop :=
  (Query.trail id limit).Answers EventCells.entry d.events?

end Database

/-! ## The tables of a store -/

/-- The value in a column that should hold one of the names of `α`. -/
def Column.cell {α : Type} (name : α → String) : Column α → Cell
  | .known x => .text (name x)
  | .foreign t => .text t

def Row.cells (row : Row) : TaskCells where
  id := .text row.id
  title := .text row.title
  kind := .text row.kind
  status := row.status.cell Status.name
  payload := .blob row.payload
  createdAt := .integer row.createdAt
  updatedAt := .integer row.updatedAt
  completedAt := row.completedAt.elim .null .integer
  error := .text row.error

def Mark.cells (mark : Mark) : EventCells where
  id := .integer mark.id
  taskId := .text mark.taskId
  type := mark.type.cell EventType.name
  timestamp := .integer mark.timestamp
  details := mark.details.elim .null .text

/-- The tables of a store, cell by cell. -/
def Store.database (s : Store) : Database where
  tasks? := s.rows?.map fun rows => rows.map Row.cells
  events? := s.marks?.map fun marks => marks.map Mark.cells

end Courier
