/-
# Courier.Health.Monitor -- is the chat link up?

The monitor probes the link at a fixed interval. After a number of failed probes in a row it opens an
*episode*: the link counts as lost and a reconnection procedure of its own starts, which probes with
growing pauses until one probe succeeds or it has used up its attempts. The periodic probes go on
meanwhile and may end the episode first; a procedure whose episode is over does nothing more.

Everything here is one atomic step of one party on the shared state `Monitor`. An event is emitted
only while the stop token of the party that causes it has not fired; the state changes all the same.
The look at the token and the sending are one step here, together with the change of state that they go
with. A stop takes no lock that keeps it out of that step, so on another thread it can fall between the look and
the sending; then it counts as after the step.
-/
import Courier.Link

namespace Courier.Health

/-! ## Settings and signals -/

structure Settings where
  intervalSecs : Nat := 30
  maxRetries : Nat := 10
  failureThreshold : Nat := 3
deriving DecidableEq, Repr

/-- The pause before a reconnection attempt never exceeds this. -/
def maxBackoffSecs : Nat := 60

/-- The pause before the `n`-th reconnection attempt, in seconds. -/
def backoffSecs (attempt : Nat) : Nat :=
  min (attempt * attempt) maxBackoffSecs

/-- At least one failed probe is needed to lose the link. -/
def Settings.threshold (c : Settings) : Nat := max c.failureThreshold 1

/-- The pause between two periodic probes, in seconds. -/
def Settings.period (c : Settings) : Nat := max c.intervalSecs 1

/-- What the monitor tells others. -/
inductive Signal where
  /-- Too many failures, reconnection has started. -/
  | disconnected
  | reconnected
  /-- Every attempt of an episode failed. -/
  | reconnectFailed
deriving DecidableEq, Repr

def Signal.name : Signal → String
  | .disconnected => "disconnected"
  | .reconnected => "reconnected"
  | .reconnectFailed => "reconnect_failed"

/-- Why a probe or a delivery failed. -/
inductive LinkError where
  | unavailable (reason : String)
  | rejected (reason : String)
deriving DecidableEq, Repr

def LinkError.message : LinkError → String
  | .unavailable reason => "Transport unavailable: " ++ reason
  | .rejected reason => "Message rejected: " ++ reason

/-! ## Shared state -/

structure Monitor where
  link : Link := .unknown
  /-- Failed periodic probes since the last success. -/
  failures : Nat := 0
  lastSuccess : Option Int := none
  lastError : Option String := none
  /-- The number of episodes opened so far, which is the number of the latest one. -/
  episode : Nat := 0
  /-- The value that watchers of the link see. -/
  watched : Link := .unknown
  /-- How often the watched value was replaced. -/
  changes : Nat := 0
  /-- Signals emitted so far, the latest first. -/
  emitted : List Signal := []
deriving Repr

namespace Monitor

/-- Changes the state of the link and tells its watchers, unless it is the old one. -/
def transition (m : Monitor) (next : Link) : Monitor :=
  if m.link = next then m
  else { m with link := next, watched := next, changes := m.changes + 1 }

/-- Emits a signal, unless the stop token has fired. -/
def fire (m : Monitor) (signal : Signal) (stopped : Bool) : Monitor :=
  if stopped then m else { m with emitted := signal :: m.emitted }

/-- A probe loop starts. -/
def start (m : Monitor) : Monitor :=
  m.transition .connecting

/-- Is an episode still open? -/
def isOpen (m : Monitor) (episode : Nat) : Bool :=
  m.episode == episode && m.link == .reconnecting

/-- The result of a periodic probe. Returns the episode that it opens, if it opens one. -/
def recordProbe (c : Settings) (m : Monitor) (result : Except LinkError Unit) (now : Int)
    (stopped : Bool) : Monitor × Option Nat :=
  match result with
  | .ok () =>
    let m := { m with failures := 0, lastSuccess := some now }
    match m.link with
    | .reconnecting | .disconnected =>
      ((m.transition .connected).fire .reconnected stopped, none)
    | .unknown | .connecting => (m.transition .connected, none)
    | .connected => (m, none)
  | .error e =>
    let m := { m with failures := m.failures + 1, lastError := some e.message }
    if c.threshold ≤ m.failures ∧ m.link ≠ .reconnecting then
      let m := { m with episode := m.episode + 1 }
      ((m.transition .reconnecting).fire .disconnected stopped, some m.episode)
    else (m, none)

/-! ## The reconnection procedure of an episode -/

end Monitor

/-- Where a reconnection procedure stands. -/
inductive Stage where
  /-- Waits before its `attempt`-th probe. -/
  | sleeping (attempt : Nat)
  | probing (attempt : Nat)
  /-- All attempts are used up; one look at the state is left. -/
  | exhausted
  | finished
deriving DecidableEq, Repr

/-- Where a procedure stands that is about to make its `attempt`-th probe. -/
def Stage.before (c : Settings) (attempt : Nat) : Stage :=
  if attempt ≤ c.maxRetries then .sleeping attempt else .exhausted

namespace Monitor

/-- The pause is over: the probe starts, if the episode is still open. -/
def wake (m : Monitor) (episode attempt : Nat) : Stage :=
  if m.isOpen episode then .probing attempt else .finished

/-- The result of a reconnection probe. -/
def recordReconnect (c : Settings) (m : Monitor) (episode attempt : Nat)
    (result : Except LinkError Unit) (now : Int) (stopped : Bool) : Monitor × Stage :=
  if !m.isOpen episode then (m, .finished)
  else
    match result with
    | .ok () =>
      let m := { m with failures := 0, lastSuccess := some now }
      ((m.transition .connected).fire .reconnected stopped, .finished)
    | .error e =>
      ({ m with lastError := some e.message }, Stage.before c (attempt + 1))

/-- The last look of a procedure that has used up its attempts. -/
def giveUp (m : Monitor) (episode : Nat) (stopped : Bool) : Monitor :=
  if m.isOpen episode then (m.transition .disconnected).fire .reconnectFailed stopped else m

end Monitor

end Courier.Health
