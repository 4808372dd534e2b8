/-
# Courier.Health.Timeline -- a monitor on a clock

A run of the monitor on a clock that moves only when it is told to. The gateway answers probes from
a list of replies, in the order in which probes start, and follows its own state when the list is
used up. Parties take the steps of `Courier.Health.Run`; what is added here is when they take them.

A probe loop ticks every period. A tick that is handled more than five milliseconds late moves the
following ticks; otherwise they stay on the grid of the first one.
-/
import Courier.Health.Run

namespace Courier.Health

/-- The gateway's reply to one probe. -/
structure Reply where
  /-- `none`: as the gateway is at the end of the probe. -/
  result : Option (Except LinkError Unit) := none
  delayMs : Nat := 0
deriving Repr

/-- What a party waits for. -/
inductive Waiting where
  /-- A tick, or the end of a pause. -/
  | until (time : Nat)
  /-- The end of a probe. -/
  | reply (time : Nat) (reply : Reply)
deriving Repr

def Waiting.time : Waiting → Nat
  | .until t => t
  | .reply t _ => t

/-- A probe loop: its token, the time of its next tick, and a probe that is under way. -/
structure Ticker where
  token : Nat
  nextTick : Nat
  probe : Option (Nat × Reply) := none
deriving Repr

/-- When the loop has something to do. -/
def Ticker.due (t : Ticker) : Nat :=
  match t.probe with
  | some (time, _) => time
  | none => t.nextTick

structure Timeline where
  settings : Settings
  system : System := {}
  clock : Nat := 0
  up : Bool := true
  replies : List Reply := []
  tickers : List Ticker := []
  /-- What each procedure waits for, by its index. -/
  waits : List (Option Waiting) := []
  /-- Start times of probes, the latest first. -/
  probes : List Nat := []
  /-- Signals with their times, the latest first. -/
  heard : List (Signal × Nat) := []
deriving Repr

namespace Timeline

/-- How late a tick may be without moving the next ones, in milliseconds. -/
def tolerance : Nat := 5

def periodMs (t : Timeline) : Nat := t.settings.period * 1000

/-- Takes a step of the system; signals that it emits are heard now. -/
def move (t : Timeline) (m : System.Move) : Timeline :=
  let system := t.system.step t.settings m
  let fresh := system.monitor.emitted.take
    (system.monitor.emitted.length - t.system.monitor.emitted.length)
  { t with system, heard := fresh.map (fun s => (s, t.clock)) ++ t.heard }

/-- The gateway's own state. -/
def gateway (t : Timeline) : Except LinkError Unit :=
  if t.up then .ok () else .error (.unavailable "gateway down")

/-- Starts a probe: the next reply and the time at which it is there. -/
def startProbe (t : Timeline) : (Nat × Reply) × Timeline :=
  let (reply, replies) :=
    match t.replies with
    | [] => (({} : Reply), [])
    | r :: rest => (r, rest)
  ((t.clock + reply.delayMs, reply), { t with replies, probes := t.clock :: t.probes })

def resultOf (t : Timeline) (r : Reply) : Except LinkError Unit :=
  match r.result with
  | some result => result
  | none => t.gateway

/-! ## Single steps -/

/-- Gives every procedure that is new or has moved on something to wait for. -/
def schedule (t : Timeline) : Timeline :=
  let missing := t.system.procedures.length - t.waits.length
  { t with waits := t.waits ++ List.replicate missing none }

/-- One step of a probe loop that is due. -/
def stepTicker (t : Timeline) (index : Nat) : Timeline :=
  match t.tickers[index]? with
  | none => t
  | some ticker =>
    match ticker.probe with
    | some (_, reply) =>
      let t := { t with tickers := t.tickers.set index { ticker with probe := none } }
      (t.move (.probed ticker.token (t.resultOf reply) t.clock)).schedule
    | none =>
      let late := ticker.nextTick + tolerance < t.clock
      let nextTick := (if late then t.clock else ticker.nextTick) + t.periodMs
      let (probe, t) := t.startProbe
      { t with tickers := t.tickers.set index { ticker with nextTick, probe := some probe } }

/-- One step of a reconnection procedure, if it has one to take. -/
def stepProcedure (t : Timeline) (index : Nat) : Timeline :=
  match t.system.procedures[index]?, t.waits[index]? with
  | some p, some wait =>
    match p.stage, wait with
    | .sleeping attempt, none =>
      { t with waits := t.waits.set index (some (.until (t.clock + backoffSecs attempt * 1000))) }
    | .sleeping _, some _ =>
      let t := t.move (.wake index)
      match t.system.procedures[index]? with
      | some { stage := .probing _, .. } =>
        let (probe, t) := t.startProbe
        { t with waits := t.waits.set index (some (.reply probe.1 probe.2)) }
      | _ => { t with waits := t.waits.set index none }
    | .probing _, some (.reply _ reply) =>
      let t := { t with waits := t.waits.set index none }
      t.move (.answered index (t.resultOf reply) t.clock)
    | .exhausted, _ => t.move (.conclude index)
    | _, _ => t
  | _, _ => t

/-- Ends the parties whose token has fired. -/
def endStopped (t : Timeline) : Timeline :=
  let stopped := t.tickers.filter fun k => t.system.isStopped k.token
  let t := stopped.foldl (fun t k => t.move (.loopEnds k.token)) t
  let t := { t with tickers := t.tickers.filter fun k => !t.system.isStopped k.token }
  (List.range t.system.procedures.length).foldl (fun t i => t.move (.procedureEnds i)) t

/-- Has the procedure a step to take now? -/
def procedureDue (t : Timeline) (index : Nat) : Bool :=
  match t.system.procedures[index]?, t.waits[index]? with
  | some p, some wait =>
    match p.stage, wait with
    | .finished, _ => false
    | .exhausted, _ => true
    | _, none => true
    | _, some w => w.time ≤ t.clock
  | _, _ => false

/-- The step that is to be taken now, if there is one. -/
def dueStep (t : Timeline) : Option Timeline :=
  match t.tickers.findIdx? fun k => k.due ≤ t.clock with
  | some i => some (t.stepTicker i)
  | none =>
    match (List.range t.system.procedures.length).find? t.procedureDue with
    | some i => some (t.stepProcedure i)
    | none => none

/-- Takes all steps that are to be taken now. -/
def settle : Nat → Timeline → Timeline
  | 0, t => t
  | fuel + 1, t =>
    match t.dueStep with
    | some t => settle fuel t
    | none => t

/-- More steps than the parties can take at one instant. -/
def settleFuel (t : Timeline) : Nat :=
  100 + 10 * (t.tickers.length + t.system.procedures.length)

def settled (t : Timeline) : Timeline :=
  settle t.settleFuel t.schedule

/-- The times at which somebody has something to do. -/
def timers (t : Timeline) : List Nat :=
  t.tickers.map Ticker.due ++
    (t.system.procedures.zip t.waits).filterMap fun (p, w) =>
      if p.stage = .finished then none else w.map Waiting.time

/-- The next time after now at which somebody has something to do. -/
def nextTimer? (t : Timeline) : Option Nat :=
  ((t.timers.filter fun x => t.clock < x).min?)

/-! ## Requests -/

/-- A probe loop begins; its first tick is a period away. -/
def launch (t : Timeline) : Timeline :=
  let token := t.system.starts
  let t := t.move .start
  let ticker : Ticker := { token, nextTick := t.clock + t.periodMs }
  { t with tickers := t.tickers ++ [ticker] }

def start (t : Timeline) : Timeline :=
  t.launch.endStopped.settled

def stop (t : Timeline) : Timeline :=
  (t.move .stop).endStopped.settled

def stopParent (t : Timeline) : Timeline :=
  (t.move .stopParent).endStopped.settled

/-- Moves the clock to a time at which nothing is to be done before it. -/
def moveTo (t : Timeline) (time : Nat) : Timeline :=
  ({ t with clock := time }).settled

/-- Moves the clock on, from one thing to do to the next. -/
def advanceTo : Nat → Timeline → Nat → Timeline
  | 0, t, target => t.moveTo target
  | fuel + 1, t, target =>
    match t.nextTimer? with
    | some time => if time ≤ target then advanceTo fuel (t.moveTo time) target else t.moveTo target
    | none => t.moveTo target

/-- Moves the clock on by some milliseconds. Between two things to do lies at least a millisecond. -/
def advance (t : Timeline) (ms : Nat) : Timeline :=
  advanceTo (ms + 1) t (t.clock + ms)

end Timeline

end Courier.Health
