/-
# Courier.Store.Edits -- changes made to the database by somebody else

Any tool can open the database file. It can write texts into columns that no version of this program
writes, and it can drop a table. The number that each edit returns is the number of rows it changed.

A file that is closed and opened again has all that was written to it: that is what the database promises, and
it is assumed here. So `reopen` is nothing but the look at the tables that comes with opening.
-/
import Courier.Schema.Tasks
import Courier.Store.Basic

namespace Courier.Store

/-- Writes a text into the status column of a task. -/
def editStatus (s : Store) (id text : String) : Except Error (Nat × Store) := do
  let rows ← s.rows
  let edited := rows.map fun r =>
    if r.id = id then { r with status := Column.ofText Status.ofName? text } else r
  return ((rows.filter fun r => r.id = id).length, { s with rows? := some edited })

/-- Writes a text into the type column of every entry of a task. -/
def editEventType (s : Store) (id text : String) : Except Error (Nat × Store) := do
  let marks ← s.marks
  let edited := marks.map fun m =>
    if m.taskId = id then { m with type := Column.ofText EventType.ofName? text } else m
  return ((marks.filter fun m => m.taskId = id).length, { s with marks? := some edited })

/-- Writes a text into the details of every entry of a task, or removes them. -/
def editDetails (s : Store) (id : String) (text : Option String) : Except Error (Nat × Store) := do
  let marks ← s.marks
  let edited := marks.map fun m => if m.taskId = id then { m with details := text } else m
  return ((marks.filter fun m => m.taskId = id).length, { s with marks? := some edited })

/-- Drops a table with everything in it. -/
def dropTable (s : Store) (table : String) : Except Error Store :=
  if Catalogue.sameName table Schema.taskTable.name then
    s.rows.map fun _ => { s with rows? := none }
  else if Catalogue.sameName table Schema.eventTable.name then
    s.marks.map fun _ => { s with marks? := none }
  else .error .database

/-- The catalogue of the database that holds the store. -/
def catalogue (s : Store) : Catalogue :=
  let tables :=
    (if s.rows?.isSome then [Schema.taskTable] else []) ++
    (if s.marks?.isSome then [Schema.eventTable] else [])
  (Schema.Version.create { number := 1, tables } {}).2

/-- Closes the store and opens its file again. -/
def reopen (s : Store) : Except Schema.Error Unit :=
  (Schema.prepare Schema.taskVersions false s.catalogue).1

end Courier.Store
