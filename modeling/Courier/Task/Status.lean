/-
# Courier.Task.Status -- where a task stands

A task waits, runs, or has reached one of three ends. The names are the ones that records, audit
entries and the command line use; `ofName?` reads exactly what `name` writes.
-/

namespace Courier

/-- The lifecycle status of a task. -/
inductive Status where
  | pending
  | running
  | completed
  | failed
  | cancelled
deriving DecidableEq, Repr

namespace Status

def all : List Status := [.pending, .running, .completed, .failed, .cancelled]

/-- Has the task reached an end? -/
def isTerminal : Status → Bool
  | .completed | .failed | .cancelled => true
  | .pending | .running => false

def name : Status → String
  | .pending => "pending"
  | .running => "running"
  | .completed => "completed"
  | .failed => "failed"
  | .cancelled => "cancelled"

def ofName? : String → Option Status
  | "pending" => some .pending
  | "running" => some .running
  | "completed" => some .completed
  | "failed" => some .failed
  | "cancelled" => some .cancelled
  | _ => none

theorem ofName?_name (s : Status) : ofName? s.name = some s := by
  cases s <;> rfl

theorem name_of_ofName? {t : String} {s : Status} (h : ofName? t = some s) : s.name = t := by
  unfold ofName? at h
  split at h <;> first | (cases h; rfl) | cases h

end Status

end Courier
