/-
# Courier.Health.Run -- a monitor with all the parties that work on it

Every start adds a probe loop with a stop token of its own; every episode adds a reconnection
procedure that shares the token of the loop that opened it. A run interleaves their steps in any
order. A party whose token has fired ends at its next wait, but a result that it already holds is
still recorded.
-/
import Courier.Health.Monitor

namespace Courier.Health

/-- A reconnection procedure. -/
structure Procedure where
  token : Nat
  episode : Nat
  stage : Stage
deriving DecidableEq, Repr

/-- A monitor and its parties. Tokens are numbered in the order of the starts. -/
structure System where
  monitor : Monitor := {}
  /-- The number of starts. -/
  starts : Nat := 0
  /-- The loops that are still running, by their tokens. -/
  loops : List Nat := []
  procedures : List Procedure := []
  /-- Tokens that have fired. -/
  fired : List Nat := []
  /-- The parent of all tokens has fired. -/
  parentFired : Bool := false
deriving Repr

namespace System

def isStopped (s : System) (token : Nat) : Bool :=
  s.parentFired || s.fired.contains token

/-- One atomic step of one party, or a request from outside. -/
inductive Move where
  | start
  /-- Stops what the last start has started. -/
  | stop
  | stopParent
  /-- A loop records the result of its probe. -/
  | probed (token : Nat) (result : Except LinkError Unit) (now : Int)
  /-- A loop notices its stop token. -/
  | loopEnds (token : Nat)
  /-- The pause of a procedure is over. -/
  | wake (index : Nat)
  /-- A procedure records the result of its probe. -/
  | answered (index : Nat) (result : Except LinkError Unit) (now : Int)
  /-- A procedure that has used up its attempts looks at the state once more. -/
  | conclude (index : Nat)
  /-- A procedure notices its stop token. -/
  | procedureEnds (index : Nat)

def setStage (s : System) (index : Nat) (stage : Stage) : System :=
  { s with procedures := s.procedures.modify index fun p => { p with stage } }

/-- The state after a move; a move that is not possible changes nothing. -/
def step (c : Settings) (s : System) : Move → System
  | .start =>
    { s with
      monitor := s.monitor.start
      starts := s.starts + 1
      loops := s.loops ++ [s.starts] }
  | .stop => if s.starts = 0 then s else { s with fired := (s.starts - 1) :: s.fired }
  | .stopParent => { s with parentFired := true }
  | .probed token result now =>
    if s.loops.contains token then
      let (monitor, opened) := s.monitor.recordProbe c result now (s.isStopped token)
      match opened with
      | none => { s with monitor }
      | some episode =>
        { s with
          monitor
          procedures := s.procedures ++ [{ token, episode, stage := Stage.before c 1 }] }
    else s
  | .loopEnds token =>
    if s.isStopped token then { s with loops := s.loops.erase token } else s
  | .wake index =>
    match s.procedures[index]? with
    | some { episode, stage := .sleeping attempt, .. } =>
      s.setStage index (s.monitor.wake episode attempt)
    | _ => s
  | .answered index result now =>
    match s.procedures[index]? with
    | some { token, episode, stage := .probing attempt } =>
      let (monitor, stage) :=
        s.monitor.recordReconnect c episode attempt result now (s.isStopped token)
      ({ s with monitor }).setStage index stage
    | _ => s
  | .conclude index =>
    match s.procedures[index]? with
    | some { token, episode, stage := .exhausted } =>
      ({ s with monitor := s.monitor.giveUp episode (s.isStopped token) }).setStage index .finished
    | _ => s
  | .procedureEnds index =>
    match s.procedures[index]? with
    | some { token, stage := .sleeping _, .. } | some { token, stage := .probing _, .. } =>
      if s.isStopped token then s.setStage index .finished else s
    | _ => s

def run (c : Settings) (s : System) (moves : List Move) : System :=
  moves.foldl (step c) s

end System

end Courier.Health
