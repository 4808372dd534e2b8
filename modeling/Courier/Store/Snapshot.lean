/-
# Courier.Store.Snapshot -- a store as one text

A store that has to outlive the program is written as a JSON text: the rows of both tables in their
order, a missing table as null. Columns that could be foreign are written as the texts that they hold,
so reading a snapshot gives back every store, whoever has edited it.
-/
import Courier.Store.Basic

namespace Courier

/-- The text in a column. -/
def Column.text {α : Type} (name : α → String) : Column α → String
  | .known x => name x
  | .foreign t => t

namespace Snapshot

/-! ## Writing -/

def ofOptional {α : Type} (f : α → Json) : Option α → Json
  | none => .null
  | some x => f x

def ofBytes (b : Bytes) : Json := .arr (b.map fun x => .int x.toNat)

def ofRow (r : Row) : Json :=
  .arr [.str r.id, .str r.title, .str r.kind, ofBytes r.payload, .str (r.status.text Status.name),
    .int r.createdAt, .int r.updatedAt, ofOptional .int r.completedAt, .str r.error]

def ofMark (m : Mark) : Json :=
  .arr [.int m.id, .str m.taskId, .str (m.type.text EventType.name), .int m.timestamp,
    ofOptional .str m.details]

def ofStore (s : Store) : Json :=
  .obj [("tasks", ofOptional (fun rows => .arr (rows.map ofRow)) s.rows?),
    ("events", ofOptional (fun marks => .arr (marks.map ofMark)) s.marks?)]

/-- The text of a store. -/
def encode (s : Store) : Bytes := Utf8.encode (ofStore s).text

/-! ## Reading -/

/-- A value that may be null. -/
def optional? {α : Type} (f : Json → Option α) : Json → Option (Option α)
  | .null => some none
  | j => (f j).map some

def text? : Json → Option String
  | .str s => some s
  | _ => none

def integer? : Json → Option Int
  | .int z => some z
  | _ => none

def byte? : Json → Option UInt8
  | .int z => if 0 ≤ z && z < 256 then some (UInt8.ofNat z.toNat) else none
  | _ => none

def list? {α : Type} (f : Json → Option α) : Json → Option (List α)
  | .arr xs => xs.mapM f
  | _ => none

def row? : Json → Option Row
  | .arr [id, title, kind, payload, status, createdAt, updatedAt, completedAt, error] => do
    some {
      id := ← text? id
      title := ← text? title
      kind := ← text? kind
      payload := ← list? byte? payload
      status := Column.ofText Status.ofName? (← text? status)
      createdAt := ← integer? createdAt
      updatedAt := ← integer? updatedAt
      completedAt := ← optional? integer? completedAt
      error := ← text? error }
  | _ => none

def mark? : Json → Option Mark
  | .arr [id, taskId, type, timestamp, details] => do
    some {
      id := ← integer? id
      taskId := ← text? taskId
      type := Column.ofText EventType.ofName? (← text? type)
      timestamp := ← integer? timestamp
      details := ← optional? text? details }
  | _ => none

def store? (j : Json) : Option Store := do
  some {
    rows? := ← optional? (list? row?) (← j.get? "tasks")
    marks? := ← optional? (list? mark?) (← j.get? "events") }

/-- The store that a text describes. -/
def decode? (b : Bytes) : Option Store := do
  store? (← (Json.parse b).toOption)

end Snapshot

end Courier
