/-
# Courier.Scheduler.Run -- runs as lists of moves

A `Move` is one atomic step of one party, or one event from outside: a request enters its locked
section, a caller carries out its next effect, the loop or a worker takes a step, time passes, the
link changes, the disk starts or stops refusing, an operator edits the store. A run is any list of
moves; a move that is not possible where it stands changes nothing. Statements about every
interleaving are statements about every list of moves.
-/
import Courier.Scheduler.Dispatch
import Courier.Scheduler.Request
import Courier.Scheduler.Worker

namespace Courier.Scheduler

/-- One atomic step of a run. -/
inductive Move where
  | submit (id kind : String) (payload : Bytes) (title : String)
  | cancel (id : String)
  | recover
  | resume (call : Nat)
  | start
  | shutdown
  | loop (turn : Turn)
  | worker (seq : Nat) (answer : Answer)
  | link (link : Link)
  | unwatch
  | clock (now : Int)
  | outage (op : Operation) (o : Outage)
  | heal
  /-- Somebody else writes a record. -/
  | putRecord (r : Record)
  /-- Somebody else deletes a task. -/
  | deleteRecord (id : String)

/-- The state after a move. -/
def State.step (c : Setup) (s : State) : Move → State
  | .submit id kind payload title => (s.submit c id kind payload title).2
  | .cancel id => (s.cancel id).2
  | .recover => (s.recover c).2
  | .resume call => s.resume call
  | .start => s.start
  | .shutdown => { s with shutdown := true }
  | .loop turn => s.stepLoop turn
  | .worker seq answer => s.stepWorker c seq answer
  | .link link => s.setLink link
  | .unwatch => { s with linkWatched := false }
  | .clock now => { s with now }
  | .outage op o => { s with disk := s.disk.setOutage op o }
  | .heal => { s with disk := s.disk.heal }
  | .putRecord r =>
    match s.disk.store.put r with
    | .ok store => { s with disk := { s.disk with store } }
    | .error _ => s
  | .deleteRecord id => { s with disk := { s.disk with store := (s.disk.store.delete id).2 } }

/-- The state after a run. -/
def State.run (c : Setup) (s : State) (moves : List Move) : State :=
  moves.foldl (State.step c) s

theorem State.run_append (c : Setup) (s : State) (xs ys : List Move) :
    s.run c (xs ++ ys) = (s.run c xs).run c ys := by
  simp [State.run]

end Courier.Scheduler
