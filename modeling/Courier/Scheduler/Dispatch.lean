/-
# Courier.Scheduler.Dispatch -- the dispatch loop

The loop claims the head of the queue whenever the link is up and a permit is free, and starts a
worker for it. It looks at the link twice, before it asks for a permit and after it got one, and it
waits in four places: for the link, for a permit, for a wake-up when the queue was empty, and for a
second when the store refused a claim. Told to stop it closes the scheduler, tells its workers, and
waits for them up to the shutdown timeout; workers that are still there then are given up.
-/
import Courier.Scheduler.State

namespace Courier.Scheduler

/-- What the dispatch loop notices where several things can happen. Steps that need no choice take
`go`. -/
inductive Turn where
  | go
  /-- The loop has been told to stop. -/
  | shutdown
  /-- A permit is free. -/
  | permit
  /-- A wake-up is there. -/
  | wakeup
  /-- The link has changed, or nobody watches it any more. -/
  | link
  /-- The pause after a refused claim is over. -/
  | pauseOver
  /-- All workers have stopped, except those given up earlier. -/
  | drained
  /-- The shutdown timeout is over. -/
  | timeout
deriving DecidableEq, Repr

/-- How a claim ended. -/
inductive Claim where
  | task
  | empty
  | storeFailed
deriving DecidableEq, Repr

namespace State

/-- Takes the head of the queue, stores it as running and makes a worker for it. With a refused write
the queue stays as it is. -/
def claimNext (s : State) : Claim × State :=
  match s.queue with
  | [] => (.empty, s)
  | task :: rest =>
    match s.writeStatus task.id .running "" with
    | (.error _, s) => (.storeFailed, s)
    | (.ok (), s) =>
      let task := { task with attempts := task.attempts + 1 }
      let entry : Running :=
        { id := task.id, title := task.title, createdAt := task.createdAt, seq := s.nextSeq
          cancelRequested := false }
      (.task,
        { s with
          queue := rest
          running := (s.running.filter fun r => r.id ≠ task.id) ++ [entry]
          nextSeq := s.nextSeq + 1
          workers := s.workers ++ [{ seq := s.nextSeq, task, phase := .claimed, told := false }]
          history := .claimed task.id task.attempts :: s.history })

/-- Has the link changed unseen, or does nobody watch it any more? -/
def linkNews (s : State) : Bool :=
  s.linkAlive && (s.linkChanged || !s.linkWatched)

/-- Takes note of a change of the link. -/
def seeLink (s : State) : State :=
  { s with linkChanged := false, linkAlive := s.linkChanged || s.linkWatched }

/-- Tears off the workers that wait and marks the others, which are torn off where they wait next. -/
def giveUpWorkers (s : State) : State :=
  { s with
    free := s.free + (s.workers.filter fun w => w.phase.waits).length
    workers := (s.workers.filter fun w => !w.phase.waits).map fun w => { w with aborted := true } }

/-- One step of the loop; a turn that is not possible changes nothing. -/
def stepLoop (s : State) (turn : Turn) : State :=
  match s.loop, turn with
  | .top, .go =>
    { s with linkChanged := false, loop := if s.link = .connected then .acquiring else .paused }
  | .paused, .link => if s.linkNews then { s.seeLink with loop := .top } else s
  | .acquiring, .permit =>
    if 0 < s.free then { s with free := s.free - 1, loop := .holding } else s
  | .holding, .go =>
    if s.link = .connected then { s with loop := .claiming }
    else { s with free := s.free + 1, loop := .top }
  | .claiming, .go =>
    match s.claimNext with
    | (.task, s) => { s with loop := .top }
    | (.empty, s) => { s with free := s.free + 1, loop := .idle }
    | (.storeFailed, s) => { s with free := s.free + 1, loop := .backingOff }
  | .idle, .wakeup => if s.wakeup then { s with wakeup := false, loop := .top } else s
  | .idle, .link => if s.linkNews then { s.seeLink with loop := .top } else s
  | .backingOff, .pauseOver => { s with loop := .top }
  | .paused, .shutdown | .acquiring, .shutdown | .idle, .shutdown | .backingOff, .shutdown =>
    if s.shutdown then { s with loop := .closing } else s
  | .closing, .go => { s with closed := true, loop := .stopping }
  | .stopping, .go =>
    { s with workers := s.workers.map fun w => { w with told := true }, loop := .draining }
  | .draining, .drained =>
    if s.workers.all fun w => w.aborted then { s with loop := .off } else s
  | .draining, .timeout => { s.giveUpWorkers with loop := .off }
  | _, _ => s

/-- Starts the loop, if it is not running. -/
def start (s : State) : State :=
  match s.loop with
  | .off => { s with loop := .top, shutdown := false, linkAlive := true }
  | _ => s

/-- Sets the state of the link, as long as somebody watches it. -/
def setLink (s : State) (link : Link) : State :=
  if s.linkWatched then { s with link, linkChanged := true } else s

end State

end Courier.Scheduler
