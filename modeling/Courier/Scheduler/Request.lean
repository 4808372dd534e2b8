/-
# Courier.Scheduler.Request -- submitting, cancelling, recovering

The three requests that change a scheduler from outside. Each does its work in one section under the
queue lock and leaves the lock with a list of effects: events to report and perhaps a wake-up. Those
are carried out one by one by `State.resume`, and other parties may step in between.

A refused request changes nothing: not the queue, not the sets, and, a refused write being without
effect, not the store. The exception is a recovery that fails on its way: what it has queued by then
stays queued.
-/
import Courier.Scheduler.State

namespace Courier.Scheduler

/-- Why a request is refused. -/
inductive Refusal where
  | store (e : Store.Error)
  | notFound (id : String)
  | unknownKind (kind : String)
  | shuttingDown
deriving DecidableEq, Repr

def Refusal.message? : Refusal → Option String
  | .store e => e.message?
  | .notFound id => some ("Task not found: " ++ id)
  | .unknownKind kind => some ("No handler registered for task kind '" ++ kind ++ "'")
  | .shuttingDown => some "Scheduler is shutting down"

namespace State

/-! ## Submitting -/

/-- Stores a new pending task under a fresh id and queues it. The submission is reported under the
lock, before a worker can report the start. -/
def submit (c : Setup) (s : State) (id kind : String) (payload : Bytes) (title : String) :
    Except Refusal String × State :=
  if !c.kinds.contains kind then (.error (.unknownKind kind), s)
  else if s.closed then (.error .shuttingDown, s)
  else
    let record := Record.new id kind payload title s.now
    match s.disk.put record with
    | (.error e, disk) => (.error (.store e), { s with disk })
    | (.ok (), disk) =>
      (.ok id,
        { s with
          disk
          queue := s.queue ++ [Queued.ofRecord c record]
          calls := s.calls ++ [[.wake]]
          history :=
            .reported (.submitted id kind title) :: .enqueued id :: .wrote id .pending "" :: s.history })

/-! ## Cancelling -/

/-- Marks a running task as cancelled and gives its worker the stop signal; asking again changes
nothing. -/
def tellRunning (s : State) (r : Running) : State :=
  if r.cancelRequested then s
  else
    { s with
      running := s.running.map fun x => if x.id = r.id then { x with cancelRequested := true } else x
      workers := s.workers.map fun w => if w.seq = r.seq then { w with told := true } else w }

/-- Cancels a task. A queued one is stored as cancelled and leaves the queue at once; a running one
gets the stop signal and its worker stores the status when it has stopped. -/
def cancel (s : State) (id : String) : Except Refusal Unit × State :=
  if s.isQueued id then
    match s.writeStatus id .cancelled "" with
    | (.error e, s) => (.error (.store e), s)
    | (.ok (), s) =>
      (.ok (),
        { s with
          queue := s.queue.eraseP fun t => t.id = id
          calls := s.calls ++ [[.report (.cancelled id)]]
          history := .accepted id :: .withdrawn id :: s.history })
  else
    match s.running? id with
    | some r => (.ok (), (s.tellRunning r).note (.accepted id))
    | none => (.error (.notFound id), s)

/-! ## Recovering -/

/-- What a recovery has done so far. -/
structure Recovery where
  /-- Tasks queued, with the status they were found in. -/
  recovered : List (String × Status) := []
  /-- Outstanding cancellations that could be stored now. -/
  cancelled : List String := []
deriving Repr

/-- One record of a recovery. An outstanding cancellation is tried again and never queued; a known
task is left alone; any other goes to the end of the queue, as pending. -/
def recoverRecord (c : Setup) (s : State) (done : Recovery) (r : Record) :
    Except Store.Error Recovery × State :=
  if s.cancelling.contains r.id then
    match s.writeStatus r.id .cancelled "" with
    | (.ok (), s) =>
      (.ok { done with cancelled := done.cancelled ++ [r.id] },
        { s with cancelling := s.cancelling.erase r.id })
    | (.error _, s) => (.ok done, s)
  else if (s.running? r.id).isSome || s.isQueued r.id then (.ok done, s)
  else
    let (result, s) :=
      if r.status = .running then s.writeStatus r.id .pending "" else (.ok (), s)
    match result with
    | .error e => (.error e, s)
    | .ok () =>
      (.ok { done with recovered := done.recovered ++ [(r.id, r.status)] },
        { s with
          queue := s.queue ++ [Queued.ofRecord c r]
          history := .enqueued r.id :: s.history })

/-- The records of a recovery one after the other, up to the first write that fails. -/
def recoverRecords (c : Setup) : List Record → State → Recovery → Except Store.Error Recovery × State
  | [], s, done => (.ok done, s)
  | r :: rs, s, done =>
    match s.recoverRecord c done r with
    | (.ok done, s) => recoverRecords c rs s done
    | (.error e, s) => (.error e, s)

/-- What is reported of a recovery. -/
def Recovery.effects (done : Recovery) : List Effect :=
  done.cancelled.map (fun id => .report (.cancelled id)) ++
    done.recovered.map (fun (id, status) => .report (.recovered id status)) ++
    if done.recovered.isEmpty then [] else [.wake]

/-- Queues every task in the store that still has work to do and is not known here, oldest first, and
returns their number. Tasks that were running start from scratch. -/
def recover (c : Setup) (s : State) : Except Refusal Nat × State :=
  match s.disk.listPending with
  | (.error e, disk) => (.error (.store e), { s with disk })
  | (.ok records, disk) =>
    match recoverRecords c records { s with disk } {} with
    | (.error e, s) => (.error (.store e), s)
    | (.ok done, s) =>
      (.ok done.recovered.length, { s with calls := s.calls ++ [done.effects] })

/-! ## Returning -/

/-- The next effect of one caller that has left the lock; with none left it returns. -/
def resume (s : State) (call : Nat) : State :=
  match s.calls[call]? with
  | none => s
  | some [] => { s with calls := s.calls.eraseIdx call }
  | some (e :: es) => ({ s with calls := s.calls.set call es }).perform e

end State

end Courier.Scheduler
