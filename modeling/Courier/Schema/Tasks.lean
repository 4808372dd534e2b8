/-
# Courier.Schema.Tasks -- the versions of the task database

Version zero has the table of tasks, version one adds the table of audit entries.
-/
import Courier.Schema.Open

namespace Courier.Schema

/-- One row for each task. -/
def taskTable : Table where
  name := "task_states"
  columns := [
    { name := "id", type := .text, isKey := true },
    { name := "title", type := .text, required := true },
    { name := "kind", type := .text, required := true },
    { name := "status", type := .text, required := true },
    { name := "payload", type := .blob, required := true },
    { name := "created_at", type := .integer, required := true },
    { name := "updated_at", type := .integer, required := true },
    { name := "completed_at", type := .integer },
    { name := "error", type := .text, required := true, default? := some "''" }]
  indices := [("idx_task_states_status", "status, created_at")]

/-- One row for each audit entry. -/
def eventTable : Table where
  name := "task_events"
  columns := [
    { name := "id", type := .integer, isKey := true },
    { name := "task_id", type := .text, required := true },
    { name := "event_type", type := .text, required := true },
    { name := "timestamp", type := .integer, required := true },
    { name := "details", type := .text }]
  indices := [("idx_task_events_task", "task_id, timestamp")]

/-- Every version of the task database, oldest first. -/
def taskVersions : List Version := [
  { number := 0, tables := [taskTable] },
  { number := 1, tables := [taskTable, eventTable], migration := some eventTable.create }]

end Courier.Schema
