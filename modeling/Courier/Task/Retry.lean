/-
# Courier.Task.Retry -- how often a task is tried

A task starts with a budget of retries. A failed attempt of a retryable kind takes one retry from it
and the task goes back to the end of the queue without a pause; any other failure, and any failure on
an empty budget, is final.
-/
import Courier.Task.Failure

namespace Courier.Retry

/-- What becomes of a task whose attempt failed. -/
inductive Decision where
  /-- Another attempt; `remaining` retries are left after it. -/
  | retry (remaining : Nat)
  | fail
deriving DecidableEq, Repr

/-- The decision on a failure while `remaining` retries are left. -/
def decide (failure : Failure) (remaining : Nat) : Decision :=
  if failure.isRetryable ∧ 0 < remaining then .retry (remaining - 1) else .fail

theorem decide_eq_retry_iff {failure : Failure} {remaining left : Nat} :
    decide failure remaining = .retry left ↔ failure.isRetryable = true ∧ remaining = left + 1 := by
  unfold decide
  split
  · rename_i h
    simp only [Decision.retry.injEq, h.1, true_and]
    omega
  · rename_i h
    simp only [reduceCtorEq, false_iff, not_and]
    intro h' hr
    exact h ⟨h', by omega⟩

/-- Decisions on failures one after the other, up to the first final one. -/
def decisions : List Failure → Nat → List Decision
  | [], _ => []
  | f :: fs, remaining =>
    match decide f remaining with
    | .retry left => .retry left :: decisions fs left
    | .fail => [.fail]

end Courier.Retry
