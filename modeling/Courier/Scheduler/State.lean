/-
# Courier.Scheduler.State -- what a scheduler holds between two steps

A scheduler is a queue, a set of running tasks, one dispatch loop and any number of workers, all on
one store. It is modelled as a state that changes in atomic steps: one section under the queue lock,
one store operation, one report, one wake-up, one decision of a waiting party. A `Worker` and the
`Loop` therefore carry a phase that says which step comes next, and a caller that has left the queue
lock but not yet returned is a list of `Effect`s still to be carried out. Nothing is assumed about the
order in which the parties step; the run that answers requests is one such order.

`history` records every step that somebody outside could notice, the latest first.
-/
import Courier.Link
import Courier.Notice
import Courier.Store.Disk
import Courier.Task.Registry
import Courier.Task.Retry
import Courier.Task.Transfer

namespace Courier.Scheduler

/-! ## Configuration -/

/-- What handles one kind of task. -/
structure Handler where
  /-- Can a partial output be removed again? -/
  hasRollback : Bool
deriving DecidableEq, Repr

/-- Settings that stay fixed while a scheduler lives. -/
structure Setup where
  workers : Nat
  maxRetries : Nat
  kinds : Registry Handler
deriving Repr

/-- At least one worker works. -/
def Setup.slots (c : Setup) : Nat := max c.workers 1

/-! ## Tasks in memory -/

/-- A task that waits for its next attempt, or the copy of it that a worker holds. -/
structure Queued where
  id : String
  title : String
  kind : String
  payload : Bytes
  createdAt : Int
  remaining : Nat
  attempts : Nat
deriving DecidableEq, Repr

/-- A record that enters the queue starts with a whole budget. -/
def Queued.ofRecord (c : Setup) (r : Record) : Queued where
  id := r.id
  title := r.title
  kind := r.kind
  payload := r.payload
  createdAt := r.createdAt
  remaining := c.maxRetries
  attempts := 0

/-- The entry of a task in the running set. -/
structure Running where
  id : String
  title : String
  createdAt : Int
  /-- The number of the claim, which also names the worker. -/
  seq : Nat
  /-- Somebody asked for the cancellation of the task, and not only for a shutdown. -/
  cancelRequested : Bool
deriving DecidableEq, Repr

/-! ## Effects outside the queue lock -/

/-- Something a party does after it has left the queue lock. -/
inductive Effect where
  | report (e : Event)
  | announce (n : Notice)
  /-- Leaves a wake-up for the dispatch loop; at most one is kept. -/
  | wake
deriving DecidableEq, Repr

/-! ## Workers -/

/-- A status that a worker has to store, with what it needs afterwards. -/
inductive Ending where
  | completed (bytes : Nat) (millis : Nat)
  | cancelled
  | failed (failure : Failure)
  /-- Back to the queue. -/
  | retry (failure : Failure) (remaining : Nat)
  /-- Cancelled between a failure and the return to the queue. -/
  | lateCancel
deriving DecidableEq, Repr

namespace Ending

def status : Ending → Status
  | .completed .. => .completed
  | .cancelled | .lateCancel => .cancelled
  | .failed _ => .failed
  | .retry .. => .pending

/-- Does a successful write drop the task from the running set in the same locked section? -/
def releases : Ending → Bool
  | .completed .. | .cancelled | .failed _ => true
  | .retry .. | .lateCancel => false

def error : Ending → String
  | .failed failure => failure.text
  | _ => ""

end Ending

/-- What a worker does next. -/
inductive Phase where
  /-- Claimed; the start has not been reported. -/
  | claimed
  /-- About to ask the fetcher. -/
  | opening (t : Transfer)
  | fetching (t : Transfer)
  /-- The storage consumes the stream. -/
  | storing (t : Transfer)
  /-- The storage has answered; the stop signal is looked at next. -/
  | stored (t : Transfer) (result : Except Failure Nat)
  | rollingBack (t : Transfer)
  /-- The attempt has a result; the stop signal is looked at once more. -/
  | ended (result : Except Failure Nat)
  /-- Stopped; was that a cancellation or a shutdown? -/
  | stopped
  /-- Stopped by a shutdown; about to leave the running set. -/
  | leaving
  /-- About to store a status, for the `attempt`-th time. -/
  | writing (e : Ending) (attempt : Nat)
  /-- Waits before it tries to store the status once more. -/
  | pausing (e : Ending) (attempt : Nat)
  /-- The status could not be stored; about to leave the running set. -/
  | abandoning
  /-- `pending` is stored; about to go back to the queue. -/
  | requeueing (failure : Failure) (remaining : Nat)
  /-- A late cancellation is stored; about to leave the cancelling set. -/
  | clearing
  | effects (es : List Effect)
deriving Repr

/-- Does a worker in this phase stand still until somebody else has acted? Only there can it be torn
off. -/
def Phase.waits : Phase → Bool
  | .claimed | .fetching _ | .storing _ | .rollingBack _ | .pausing .. => true
  | _ => false

/-- A worker and the task it has claimed. -/
structure Worker where
  seq : Nat
  task : Queued
  phase : Phase
  /-- The stop signal: a cancellation of the task, or a shutdown. -/
  told : Bool
  /-- The loop has given it up: it is torn off where it waits next. -/
  aborted : Bool := false
  /-- When the attempt started. -/
  started : Int := 0
deriving Repr

/-! ## The dispatch loop -/

inductive Loop where
  /-- Not started, or returned. -/
  | off
  | top
  /-- The link is down. -/
  | paused
  | acquiring
  /-- Holds a permit; the link is looked at once more. -/
  | holding
  /-- Holds a permit and has seen the link up. -/
  | claiming
  /-- The queue was empty. -/
  | idle
  /-- The store refused a claim. -/
  | backingOff
  /-- Told to stop; submissions are still accepted. -/
  | closing
  /-- Submissions are refused; workers are about to be told. -/
  | stopping
  /-- Waits for its workers. -/
  | draining
deriving DecidableEq, Repr

/-- Does the loop hold a permit? -/
def Loop.holdsPermit : Loop → Bool
  | .holding | .claiming => true
  | _ => false

/-! ## History -/

/-- Something that happened. -/
inductive Happening where
  /-- A task entered the queue at its end. -/
  | enqueued (id : String)
  /-- A task was cancelled while it was queued. -/
  | withdrawn (id : String)
  | claimed (id : String) (attempt : Nat)
  /-- A request to cancel the task was accepted. -/
  | accepted (id : String)
  /-- The store took a status. -/
  | wrote (id : String) (status : Status) (error : String)
  | reported (e : Event)
  | announced (n : Notice)
  | fetched (seq : Nat) (source : String)
  | put (seq : Nat) (destination : String)
  | rolledBack (seq : Nat) (destination : String)
  | released (id : String)
  /-- A worker let go of the task, and its record does not say how it ended. -/
  | letGo (id : String)
deriving DecidableEq, Repr

/-! ## State -/

structure State where
  disk : Disk
  queue : List Queued := []
  /-- In the order of their claims. -/
  running : List Running := []
  /-- Cancelled between a failure and the return to the queue, with the write still outstanding; the
  store says `pending` for these. -/
  cancelling : List String := []
  nextSeq : Nat := 0
  closed : Bool := false
  /-- A wake-up for the dispatch loop that nobody has taken yet. -/
  wakeup : Bool := false
  /-- Free permits. -/
  free : Nat
  loop : Loop := .off
  /-- The dispatch loop has been told to stop. -/
  shutdown : Bool := false
  workers : List Worker := []
  /-- Callers that have left the queue lock and not yet returned. -/
  calls : List (List Effect) := []
  link : Link := .connected
  /-- The link has changed since the loop last looked at it at the top. -/
  linkChanged : Bool := false
  /-- The link is still being watched by somebody who can change it. -/
  linkWatched : Bool := true
  /-- The loop still waits for changes of the link. -/
  linkAlive : Bool := true
  now : Int := 0
  history : List Happening := []
deriving Repr

/-- A scheduler that has not been started, on a disk. -/
def State.init (c : Setup) (disk : Disk) : State :=
  { disk, free := c.slots }

namespace State

/-- Adds to the history. -/
def note (s : State) (h : Happening) : State :=
  { s with history := h :: s.history }

/-- The events reported so far, the first one first. -/
def events (s : State) : List Event :=
  s.history.reverse.filterMap fun
    | .reported e => some e
    | _ => none

def isQueued (s : State) (id : String) : Bool :=
  s.queue.any fun t => t.id = id

def running? (s : State) (id : String) : Option Running :=
  s.running.find? fun r => r.id = id

/-- Drops a task from the running set. -/
def release (s : State) (id : String) : State :=
  { s with
    running := s.running.filter fun r => r.id ≠ id
    history := .released id :: s.history }

/-- Drops a task from the running set although no end of it is stored. -/
def letGo (s : State) (id : String) : State :=
  (s.release id).note (.letGo id)

/-- One status write. -/
def writeStatus (s : State) (id : String) (status : Status) (error : String) :
    Except Store.Error Unit × State :=
  match s.disk.updateStatus id status error s.now with
  | (.ok (), disk) =>
    (.ok (), { s with disk, history := .wrote id status error :: s.history })
  | (.error e, disk) => (.error e, { s with disk })

/-- Carries out an effect. -/
def perform (s : State) : Effect → State
  | .report e => s.note (.reported e)
  | .announce n => s.note (.announced n)
  | .wake => { s with wakeup := true }

end State

/-! ## Views -/

/-- What a status report shows of a queued or running task. -/
structure View where
  id : String
  title : String
  createdAt : Int
  /-- Its cancellation was requested and the worker has not stopped yet. -/
  cancelled : Bool
deriving DecidableEq, Repr

/-- The queued tasks in the order in which they will be claimed. -/
def State.queuedViews (s : State) : List View :=
  s.queue.map fun t => ⟨t.id, t.title, t.createdAt, false⟩

/-- The running tasks in the order in which they were claimed. -/
def State.runningViews (s : State) : List View :=
  s.running.map fun r => ⟨r.id, r.title, r.createdAt, r.cancelRequested⟩

end Courier.Scheduler
