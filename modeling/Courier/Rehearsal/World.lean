/-
# Courier.Rehearsal.World -- a scheduler among scripted collaborators

The world of a rehearsal: a scheduler, its sources and storages, gates, a clock that moves only when
it is told to, perhaps a health monitor that owns the link and perhaps an audit pipeline. The
scheduler takes exactly the moves of `Courier.Scheduler.Run`; what is added here is who steps next.

Parties that can go on stand in a row in the order in which they became able to. The first one steps
until it has to wait; whoever becomes able to go on meanwhile joins the row at its end.
-/
import Courier.Audit.Logger
import Courier.Health.Timeline
import Courier.Rehearsal.Script
import Courier.Scheduler.Run

namespace Courier.Rehearsal

open Scheduler

/-- A party that steps on its own. -/
inductive Party where
  | loop
  | worker (seq : Nat)
  | logger
deriving DecidableEq, Repr

/-- What surrounds one worker. -/
structure Actor where
  seq : Nat
  /-- The attempt that its fetch meets, once it has asked. -/
  attempt : Option Attempt := none
  /-- The fetcher answers no earlier. -/
  fetchUntil : Nat := 0
  intake : Option Intake := none
  /-- The next try of a status write is no earlier. -/
  pauseUntil : Nat := 0
  /-- When it began to wait, as a number in the order of such beginnings. -/
  since : Option Nat := none
deriving Repr

/-- The pause of the dispatch loop after a refused claim, in milliseconds. -/
def claimPause : Nat := 1000

structure World where
  setup : Setup
  shutdownTimeoutSecs : Nat
  notifier : Notifier
  backends : Registry Backend
  script : Script
  /-- How often each source has been fetched. -/
  served : List (String × Nat) := []
  gates : List String := []
  state : State
  /-- Milliseconds since the start. -/
  clock : Nat := 0
  /-- The time of day at the start, in Unix milliseconds. -/
  epoch : Int
  /-- Submissions made so far, refused ones included; no two have the same time of day. -/
  ticks : Nat := 0
  /-- Submissions accepted so far. -/
  submitted : Nat := 0
  /-- The end of the loop's present wait, if it is bounded. -/
  loopUntil : Nat := 0
  actors : List Actor := []
  /-- Stop signals of the present run, one slot for each worker. A slot that is given up is filled
  with the last one. -/
  slots : List Nat := []
  row : List Party := []
  waits : Nat := 0
  monitor : Option Health.Timeline := none
  pipeline : Option Audit.Pipeline := none
  /-- The audit logger has been told to stop. -/
  loggerTold : Bool := false
  /-- Puts that succeeded, the latest first. -/
  stored : List (String × Bytes) := []
  /-- What the monitor has told the operators, the latest first. -/
  linkNotices : List Notice := []

namespace World

/-- The world before its first request: a new scheduler on an empty store. Without a monitor the link
counts as connected; with an audit capacity there is a pipeline. -/
def opening (workers maxRetries shutdownTimeoutSecs : Nat) (recipients : List Int)
    (backends : List (String × Backend)) (script : Script) (epoch : Int)
    (monitor : Option Health.Timeline) (audit : Option Nat) : World :=
  let setup : Setup :=
    { workers, maxRetries, kinds := .ofList (backends.map fun (k, b) => (k, ⟨b.rollback⟩)) }
  let state := State.init setup {}
  { setup
    shutdownTimeoutSecs
    notifier := ⟨true, recipients⟩
    backends := .ofList backends
    script
    state := { state with link := (monitor.map (·.system.monitor.link)).getD state.link }
    epoch
    monitor
    pipeline := audit.map fun n => { channel := { capacity := n } } }

def time (w : World) : Int := w.epoch + w.clock + w.ticks

/-! ## Actors -/

def actor (w : World) (seq : Nat) : Actor :=
  (w.actors.find? fun a => a.seq = seq).getD { seq }

def setActor (w : World) (a : Actor) : World :=
  { w with actors := a :: w.actors.filter fun x => x.seq ≠ a.seq }

def worker? (w : World) (seq : Nat) : Option Worker :=
  w.state.workers.find? fun x => x.seq = seq

def backend (w : World) (kind : String) : Backend :=
  (w.backends.get? kind).getD {}

/-! ## Moves of the scheduler -/

/-- Fills a slot that is given up with the last one. -/
def freeSlot (seq : Nat) (slots : List Nat) : List Nat :=
  match slots.findIdx? fun x => x = seq with
  | none => slots
  | some i =>
    match slots.getLast? with
    | none => slots
    | some last => if i + 1 = slots.length then slots.dropLast else slots.dropLast.set i last

/-- The order in which workers that stand in this order notice that they are told to stop: the last
one first, then the others. -/
def stopOrder (workers : List Nat) : List Nat :=
  workers.drop (workers.length - 1) ++ workers.dropLast

/-- A move of the scheduler. Events that it reports go to the audit channel. -/
def move (w : World) (m : Move) : World :=
  let before := w.state.history.length
  let state := ({ w.state with now := w.time }).step w.setup m
  let fresh := (state.history.take (state.history.length - before)).reverse
  let pipeline := w.pipeline.map fun p =>
    fresh.foldl (fun p h => match h with
      | .reported e => p.step (.record e)
      | _ => p) p
  { w with state, pipeline }

/-- Lets every caller that has left the queue lock return. -/
def finishCalls : Nat → World → World
  | 0, w => w
  | fuel + 1, w => if w.state.calls.isEmpty then w else finishCalls fuel (w.move (.resume 0))

/-! ## What each party does next -/

/-- The turn that the loop takes, if it can go on. Being told to stop comes first. -/
def turn? (w : World) : Option Turn :=
  let s := w.state
  match s.loop with
  | .off => none
  | .top | .holding | .claiming | .closing | .stopping => some .go
  | .paused =>
    if s.shutdown then some .shutdown else if s.linkNews then some .link else none
  | .acquiring =>
    if s.shutdown then some .shutdown else if 0 < s.free then some .permit else none
  | .idle =>
    if s.shutdown then some .shutdown
    else if s.wakeup then some .wakeup
    else if s.linkNews then some .link else none
  | .backingOff =>
    if s.shutdown then some .shutdown
    else if w.loopUntil ≤ w.clock then some .pauseOver else none
  | .draining =>
    if s.workers.isEmpty then some .drained
    else if w.loopUntil ≤ w.clock then some .timeout else none

/-- A step of the loop; waits that it begins are given their end. -/
def stepLoop (w : World) (turn : Turn) : World :=
  let claims := w.state.nextSeq
  let aborted := w.state.loop = .draining ∧ turn = .timeout
  let w := w.move (.loop turn)
  let w :=
    match w.state.loop with
    | .backingOff => { w with loopUntil := w.clock + claimPause }
    | .draining =>
      { w with loopUntil := w.clock + w.shutdownTimeoutSecs * 1000 }
    | _ => w
  let w := if claims < w.state.nextSeq then { w with slots := w.slots ++ [claims] } else w
  if aborted then { w with actors := [], slots := [] } else w

/-- One step of a worker or of what surrounds it, if there is one to take. -/
def stepWorker? (w : World) (seq : Nat) : Option World := do
  let x ← w.worker? seq
  let a := w.actor seq
  match x.phase with
  | .opening t =>
    if x.told then return w.move (.worker seq .stop)
    let n := (w.served.lookup t.source).getD 0
    let attempt := w.script.attempt? t.source n
    let delay := match attempt with | some x => x.delayMs | none => 0
    let w := w.setActor { a with attempt, fetchUntil := w.clock + delay }
    let w := { w with served := (t.source, n + 1) :: w.served.filter fun p => p.1 ≠ t.source }
    return w.move (.worker seq .go)
  | .fetching t =>
    if x.told then return w.move (.worker seq .stop)
    match a.attempt with
    | none => return w.move (.worker seq (.fetched (.error (noSuchSource t.source))))
    | some attempt =>
      if w.clock < a.fetchUntil || !isOpen w.gates attempt.fetchGate then none
      else
        match attempt.fetchError with
        | some e => return w.move (.worker seq (.fetched (.error e)))
        | none =>
          let w := w.setActor { a with intake := some ((w.backend x.task.kind).start attempt) }
          return w.move (.worker seq (.fetched (.ok ())))
  | .storing t =>
    match a.intake with
    | some (.answered result) =>
      let w :=
        match result with
        | .ok body => { w with stored := (t.destination, body) :: w.stored }
        | .error _ => w
      return w.move (.worker seq (.stored (result.map List.length)))
    | some intake =>
      let intake ← (w.backend x.task.kind).read w.gates x.told intake
      return w.setActor { a with intake := some intake }
    | none => none
  | .pausing .. =>
    if a.pauseUntil ≤ w.clock then return w.move (.worker seq .go) else none
  | _ =>
    let w := w.move (.worker seq .go)
    match w.worker? seq with
    | none =>
      return { w with
        actors := w.actors.filter fun y => y.seq ≠ seq
        slots := freeSlot seq w.slots }
    | some y =>
      match y.phase with
      | .pausing _ attempt =>
        return w.setActor { a with pauseUntil := w.clock + writePause attempt }
      | _ => return w

/-- The logger empties the channel, if there is something for it to do. -/
def stepLogger? (w : World) : Option World := do
  let p ← w.pipeline
  if p.logger = .done then none
  else if p.channel.buffer.isEmpty && !w.loggerTold then none
  else
    let p' := p.settle w.loggerTold
    let fresh := p'.logged.drop p.logged.length
    let disk := fresh.foldl (fun d e => Audit.log d e w.time) w.state.disk
    return { w with pipeline := some p', state := { w.state with disk } }

/-- One step of a party, if it can go on. -/
def step? (w : World) : Party → Option World
  | .loop => w.turn?.map w.stepLoop
  | .worker seq => w.stepWorker? seq
  | .logger => w.stepLogger?

def canGoOn (w : World) (p : Party) : Bool := (w.step? p).isSome

/-! ## The row -/

/-- Workers in the order in which they began to wait; those that do not wait stand behind. -/
def waitingOrder (w : World) : List Nat :=
  let key (seq : Nat) : Nat := ((w.actor seq).since).getD w.waits
  (w.state.workers.map Worker.seq).mergeSort fun a b => key a ≤ key b

/-- The parties that can go on join the row. -/
def wakeIn (w : World) (workers : List Nat) : World :=
  let parties := Party.loop :: (workers.map Party.worker ++ [.logger])
  let fresh := parties.filter fun p => !w.row.contains p && w.canGoOn p
  { w with row := w.row ++ fresh }

def wake (w : World) : World := w.wakeIn w.waitingOrder

/-- A party has to wait: it leaves the row, and a worker's wait begins. -/
def block (w : World) (p : Party) (rest : List Party) : World :=
  let w := { w with row := rest }
  match p with
  | .worker seq =>
    if (w.worker? seq).isSome && (w.actor seq).since.isNone then
      { w.setActor { w.actor seq with since := some w.waits } with waits := w.waits + 1 }
    else w
  | _ => w

/-- A worker that steps does not wait any more. -/
def unwait (w : World) (p : Party) : World :=
  match p with
  | .worker seq =>
    match w.actors.find? fun a => a.seq = seq with
    | some a => w.setActor { a with since := none }
    | none => w
  | _ => w

/-- Workers that can go on because they were told to stop, in the order in which they join the row. -/
def stoppedOrder (w : World) : List Nat :=
  stopOrder (w.slots.filter fun seq => w.canGoOn (.worker seq))

/-- Parties step until all of them have to wait. When the loop tells its workers to stop, they join the
row in an order of their own. -/
def settle : Nat → World → World
  | 0, w => w
  | fuel + 1, w =>
    match w.row with
    | [] => w
    | p :: rest =>
      match w.step? p with
      | none => settle fuel (w.block p rest)
      | some next =>
        let next := next.unwait p
        let stopped := w.state.loop = .stopping ∧ p = .loop
        settle fuel (if stopped then next.wakeIn next.stoppedOrder else next.wake)

/-- More steps than a rehearsal takes. -/
def settleFuel : Nat := 10000000

def settled (w : World) : World := settle settleFuel w.wake

/-! ## Time -/

/-- What the monitor did reaches the scheduler and the operators. -/
def hearMonitor (w : World) (before after : Health.Timeline) : World :=
  let w := { w with monitor := some after }
  let w :=
    if before.system.monitor.changes < after.system.monitor.changes then
      w.move (.link after.system.monitor.watched)
    else w
  let fresh := after.heard.take (after.heard.length - before.heard.length)
  let notices := fresh.map fun (signal, _) =>
    match signal with
    | .disconnected => Notice.disconnected
    | .reconnected => .reconnected
    | .reconnectFailed => .reconnectFailed
  { w with linkNotices := notices ++ w.linkNotices }

/-- Moves the clock to a time at which nothing is to be done before it. -/
def moveTo (w : World) (time : Nat) : World :=
  let w := { w with clock := time }
  let w :=
    match w.monitor with
    | none => w
    | some m => w.hearMonitor m (m.moveTo time)
  w.settled

/-- The times at which some wait is over. -/
def timers (w : World) : List Nat :=
  let loop :=
    match w.state.loop with
    | .backingOff | .draining => [w.loopUntil]
    | _ => []
  let workers := w.state.workers.filterMap fun x =>
    match x.phase with
    | .fetching _ => some (w.actor x.seq).fetchUntil
    | .pausing .. => some (w.actor x.seq).pauseUntil
    | _ => none
  let monitor :=
    match w.monitor with
    | none => []
    | some m => m.timers
  loop ++ workers ++ monitor

def nextTimer? (w : World) : Option Nat :=
  (w.timers.filter fun t => w.clock < t).min?

def advanceTo : Nat → World → Nat → World
  | 0, w, target => w.moveTo target
  | fuel + 1, w, target =>
    match w.nextTimer? with
    | some t => if t ≤ target then advanceTo fuel (w.moveTo t) target else w.moveTo target
    | none => w.moveTo target

/-- Moves the clock on. Between two waits that end lies at least a millisecond. -/
def advance (w : World) (ms : Nat) : World :=
  advanceTo (ms + 1) w (w.clock + ms)

/-- Moves the clock on until the loop has returned. -/
def awaitLoop : Nat → World → World
  | 0, w => w
  | fuel + 1, w =>
    if w.state.loop = .off then w
    else
      match w.nextTimer? with
      | some t => awaitLoop fuel (w.moveTo t)
      | none => w

end World

end Courier.Rehearsal
