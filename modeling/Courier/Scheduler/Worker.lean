/-
# Courier.Scheduler.Worker -- one attempt, from claim to release

A worker reports the start of its attempt, asks the fetcher for a stream, hands the stream to the
storage, and stores how the attempt ended. Every step of `State.stepWorker` is one thing that
cannot be interrupted; what comes from outside (the fetcher, the storage, the passing of a pause) is
an `Answer`.

The stop signal is looked at three times: while the fetcher works, after the storage has answered,
and once more when the attempt has a result. An attempt that was stopped while or after its storage
worked removes the partial output, if the storage can do that, before it leaves the running set.

A worker that the loop has given up goes on until it would have to wait; a pause it never survives.
-/
import Courier.Scheduler.State

namespace Courier.Scheduler

/-- What a worker is told from outside. Steps that need no such answer take `go`. -/
inductive Answer where
  | go
  /-- The worker notices the stop signal. -/
  | stop
  | fetched (result : Except Failure Unit)
  | stored (result : Except Failure Nat)
  /-- A worker that was given up is torn off. -/
  | abort
deriving Repr

/-- How often a status write is tried. -/
def writeAttempts : Nat := 3

/-- The pause after a failed write, in milliseconds. -/
def writePause (attempt : Nat) : Nat := 100 * twoTo attempt

/-- The phase after the start was reported: tasks of an unknown kind and payloads that cannot be read
fail without asking the fetcher. -/
def openingPhase (c : Setup) (task : Queued) : Phase :=
  match c.kinds.get? task.kind with
  | none =>
    .ended (.error ⟨.invalidPayload, "no handler registered for kind '" ++ task.kind ++ "'"⟩)
  | some _ =>
    match Transfer.decode task.payload with
    | .error failure => .ended (.error failure)
    | .ok t => .opening t

/-- The phase after the storage has answered. -/
def storedPhase (handler : Option Handler) (told : Bool) (t : Transfer)
    (result : Except Failure Nat) : Phase :=
  let cancelled :=
    told || match result with
      | .error failure => failure.isCancelled
      | .ok _ => false
  if cancelled then
    match handler with
    | some ⟨true⟩ => .rollingBack t
    | _ => .ended (.error Failure.cancelled)
  else .ended result

/-- The phase after an attempt has a result. -/
def endedPhase (told : Bool) (remaining millis : Nat) (result : Except Failure Nat) : Phase :=
  match result with
  | .ok bytes => if told then .stopped else .writing (.completed bytes millis) 1
  | .error failure =>
    if failure.isCancelled then .stopped
    else
      match Retry.decide failure remaining with
      | .retry left => .writing (.retry failure left) 1
      | .fail => .writing (.failed failure) 1

/-- The phase after a status is stored. -/
def storedStatusPhase (task : Queued) : Ending → Phase
  | .completed bytes millis =>
    .effects [.report (.completed task.id bytes millis), .announce (.taskSucceeded task.title)]
  | .cancelled => .effects [.report (.cancelled task.id)]
  | .failed failure =>
    .effects [.report (.failed task.id failure), .announce (.taskFailed task.title failure.text)]
  | .retry failure left => .requeueing failure left
  | .lateCancel => .clearing

/-- The phase after a status could not be stored for good. A late cancellation stays outstanding. -/
def givenUpPhase : Ending → Phase
  | .lateCancel => .effects []
  | _ => .abandoning

namespace State

/-- Changes one worker. -/
def setWorker (s : State) (seq : Nat) (f : Worker → Worker) : State :=
  { s with workers := s.workers.map fun w => if w.seq = seq then f w else w }

def setPhase (s : State) (seq : Nat) (p : Phase) : State :=
  s.setWorker seq fun w => { w with phase := p }

/-- The worker returns its permit and is gone. -/
def finishWorker (s : State) (seq : Nat) : State :=
  { s with
    workers := s.workers.filter fun w => w.seq ≠ seq
    free := s.free + 1 }

/-- One try to store a status. With a release the task leaves the running set in the same locked
section. A record that is gone is not tried again. -/
def tryWrite (s : State) (w : Worker) (e : Ending) (attempt : Nat) : State :=
  match s.writeStatus w.task.id e.status e.error with
  | (.ok (), s) =>
    let s := if e.releases then s.release w.task.id else s
    s.setPhase w.seq (storedStatusPhase w.task e)
  | (.error (.notFound _), s) => s.setPhase w.seq (givenUpPhase e)
  | (.error _, s) =>
    if attempt < writeAttempts then s.setPhase w.seq (.pausing e attempt)
    else s.setPhase w.seq (givenUpPhase e)

/-- The locked section after `pending` was stored: back to the end of the queue, or, if the task was
cancelled meanwhile, into the cancelling set. -/
def requeue (s : State) (w : Worker) (failure : Failure) (remaining : Nat) : State :=
  let requested :=
    match s.running? w.task.id with
    | some r => r.cancelRequested
    | none => false
  let s := s.release w.task.id
  if requested then
    ({ s with cancelling := s.cancelling ++ [w.task.id] }).setPhase w.seq (.writing .lateCancel 1)
  else
    let s := s.note (.reported (.retryScheduled w.task.id remaining failure))
    ({ s with
        queue := s.queue ++ [{ w.task with remaining }]
        history := .enqueued w.task.id :: s.history }).setPhase w.seq (.effects [.wake])

/-- One step of one worker; an answer that does not fit its phase changes nothing. -/
def stepWorker (c : Setup) (s : State) (seq : Nat) (answer : Answer) : State :=
  match s.workers.find? fun w => w.seq = seq with
  | none => s
  | some w =>
    match w.phase, answer with
    | .claimed, .go =>
      (s.note (.reported (.started w.task.id w.task.attempts))).setWorker seq fun w =>
        { w with phase := openingPhase c w.task, started := s.now }
    | .opening t, .go => (s.note (.fetched seq t.source)).setPhase seq (.fetching t)
    | .opening _, .stop | .fetching _, .stop =>
      if w.told then s.setPhase seq (.ended (.error Failure.cancelled)) else s
    | .fetching t, .fetched result =>
      match result with
      | .ok () => (s.note (.put seq t.destination)).setPhase seq (.storing t)
      | .error failure => s.setPhase seq (.ended (.error failure))
    | .storing t, .stored result => s.setPhase seq (.stored t result)
    | .stored t result, .go =>
      s.setPhase seq (storedPhase (c.kinds.get? w.task.kind) w.told t result)
    | .rollingBack t, .go =>
      (s.note (.rolledBack seq t.destination)).setPhase seq (.ended (.error Failure.cancelled))
    | .ended result, .go =>
      s.setPhase seq (endedPhase w.told w.task.remaining (s.now - w.started).toNat result)
    | .stopped, .go =>
      let requested :=
        match s.running? w.task.id with
        | some r => r.cancelRequested
        | none => false
      s.setPhase seq (if requested then .writing .cancelled 1 else .leaving)
    | .leaving, .go =>
      (s.letGo w.task.id).setPhase seq (.effects [.report (.interrupted w.task.id)])
    | .writing e attempt, .go => s.tryWrite w e attempt
    | .pausing e attempt, .go =>
      if w.aborted then s else s.setPhase seq (.writing e (attempt + 1))
    | .abandoning, .go => (s.letGo w.task.id).setPhase seq (.effects [])
    | .requeueing failure remaining, .go => s.requeue w failure remaining
    | .clearing, .go =>
      ({ s with cancelling := s.cancelling.erase w.task.id }).setPhase seq
        (.effects [.report (.cancelled w.task.id)])
    | .effects [], .go => s.finishWorker seq
    | .effects (e :: es), .go => (s.perform e).setPhase seq (.effects es)
    | phase, .abort => if w.aborted && phase.waits then s.finishWorker seq else s
    | _, _ => s

end State

end Courier.Scheduler
