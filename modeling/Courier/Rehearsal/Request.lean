/-
# Courier.Rehearsal.Request -- what a rehearsal can be asked

Requests are answered at once; then, unless the request says otherwise, all parties go on until they
have to wait. The observation after a request tells what happened since the one before it.
-/
import Courier.Rehearsal.World

namespace Courier.Rehearsal

open Scheduler

inductive Request where
  | submit (kind : String) (payload : Bytes) (title : String)
  | cancel (id : String)
  | recover
  | queued
  | running
  | start
  | signalShutdown
  | shutdown
  /-- The scheduler and its workers vanish; a new one takes their place on the same store. -/
  | crash
  | replace
  | link (l : Link)
  | unwatch
  | gateway (up : Bool)
  | stopMonitor
  | open (gate : String)
  | script (sources : Script)
  | advance (ms : Nat)
  | put (r : Record)
  | delete (id : String)
  | get (id : String)
  | outage (op : Operation) (o : Outage)
  | heal
  | events (id : String)
  | dropped
  | stopLogger
deriving Repr

inductive Answer where
  | done
  | id (id : String)
  | count (n : Nat)
  | refused (r : Refusal)
  | failed (e : Store.Error)
  | record (r : Record)
  | views (vs : List View)
  | entries (es : List Entry)
  | nothing

namespace World

/-- The scheduler after a crash: nothing in memory, the same store, the same link. -/
def renewed (w : World) : World :=
  let fresh := State.init w.setup w.state.disk
  { w with
    state := { fresh with link := w.state.link, linkWatched := w.state.linkWatched, now := w.state.now }
    actors := []
    slots := []
    row := w.row.filter fun p => p == .logger }

/-- Calls that have left the queue lock return before anybody else steps. -/
def call (w : World) (m : Move) : World :=
  let w := w.move m
  finishCalls (w.state.calls.foldl (fun n es => n + es.length + 1) 1) w.wake

def ofExcept (r : Except Store.Error Unit) : Answer :=
  match r with
  | .ok () => .done
  | .error e => .failed e

/-- Carries out a request. -/
def answer (w : World) : Request → Answer × World
  | .submit kind payload title =>
    let w := { w with ticks := w.ticks + 1 }
    let id := "#" ++ toString (w.submitted + 1)
    let result := ({ w.state with now := w.time }.submit w.setup id kind payload title).1
    let w := w.call (.submit id kind payload title)
    match result with
    | .ok id => (.id id, { w with submitted := w.submitted + 1 })
    | .error e => (.refused e, w)
  | .cancel id =>
    let result := ({ w.state with now := w.time }.cancel id).1
    let w := w.call (.cancel id)
    match result with
    | .ok () => (.done, w)
    | .error e => (.refused e, w)
  | .recover =>
    let result := ({ w.state with now := w.time }.recover w.setup).1
    let w := w.call .recover
    match result with
    | .ok n => (.count n, w)
    | .error e => (.refused e, w)
  | .queued => (.views w.state.queuedViews, w)
  | .running => (.views w.state.runningViews, w)
  | .start =>
    if w.state.loop = .off then (.done, { (w.move .start) with slots := [] }) else (.done, w)
  | .signalShutdown =>
    if w.state.loop = .off then (.done, w) else (.done, w.move .shutdown)
  | .shutdown =>
    if w.state.loop = .off then (.done, w)
    else (.done, awaitLoop settleFuel (w.move .shutdown).settled)
  | .crash | .replace => (.done, w.renewed)
  | .link l => (.done, w.move (.link l))
  | .unwatch => (.done, w.move .unwatch)
  | .gateway up => (.done, { w with monitor := w.monitor.map fun m => { m with up } })
  | .stopMonitor =>
    match w.monitor with
    | none => (.done, w)
    | some m => (.done, w.hearMonitor m m.stop)
  | .open gate => (.done, { w with gates := gate :: w.gates })
  | .script sources =>
    let names := sources.map Prod.fst
    (.done,
      { w with
        script := sources ++ w.script.filter fun p => !names.contains p.1
        served := w.served.filter fun p => !names.contains p.1 })
  | .advance ms => (.done, w.settled.advance ms)
  | .put r =>
    match w.state.disk.store.put r with
    | .ok _ => (.done, w.move (.putRecord r))
    | .error e => (.failed e, w)
  | .delete id => (ofExcept (w.state.disk.store.delete id).1, w.move (.deleteRecord id))
  | .get id =>
    match w.state.disk.store.get id with
    | .ok r => (.record r, w)
    | .error e => (.failed e, w)
  | .outage op o => (.done, w.move (.outage op o))
  | .heal => (.done, w.move .heal)
  | .events id =>
    match w.state.disk.store.eventsFor id (twoTo 63) with
    | .ok es => (.entries es, w)
    | .error e => (.failed e, w)
  | .dropped =>
    match w.pipeline with
    | some p => (.count p.channel.dropped, w)
    | none => (.nothing, w)
  | .stopLogger => (.done, { w with loggerTold := true })

/-! ## Observations -/

/-- What happened since the last observation, and where the scheduler stands. -/
structure Observation where
  events : List Event
  notices : List (Int × String)
  fetched : List String
  rolledBack : List String
  stored : List (String × Bytes)
  queued : List String
  running : List (String × Bool)
  link : Option Link
  tasks : List Record

/-- Looks at the world; what was seen is forgotten. -/
def observe (w : World) : Observation × World :=
  let happened := w.state.history.reverse
  let notices := w.linkNotices.reverse ++ happened.filterMap fun
    | .announced n => some n
    | _ => none
  let delivered := notices.flatMap w.notifier.deliveries
  ({ events := w.state.events
     notices := delivered.mergeSort fun a b => a.1 < b.1 || (a.1 == b.1 && a.2 ≤ b.2)
     fetched := happened.filterMap fun
       | .fetched _ source => some source
       | _ => none
     rolledBack := happened.filterMap fun
       | .rolledBack _ destination => some destination
       | _ => none
     stored := w.stored.reverse
     queued := w.state.queue.map Queued.id
     running := w.state.running.map fun r => (r.id, r.cancelRequested)
     link := w.monitor.map fun m => m.system.monitor.link
     tasks :=
       match w.state.disk.store.rows with
       | .ok rows => (Store.oldestFirst rows).filterMap fun r => r.record.toOption
       | .error _ => [] },
    { w with state := { w.state with history := [] }, stored := [], linkNotices := [] })

/-- A request, the settling after it, and the observation. -/
def perform (w : World) (r : Request) (settle : Bool) : Answer × Observation × World :=
  let (answer, w) := w.answer r
  let w := if settle then w.settled else w.wake
  let (seen, w) := w.observe
  (answer, seen, w)

end World

end Courier.Rehearsal
