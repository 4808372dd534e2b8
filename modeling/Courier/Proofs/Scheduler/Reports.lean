/-
# Courier.Proofs.Scheduler.Reports -- how often the end of a task is reported

An end is stored first and reported later, by whoever stored it: a worker, the caller of a cancellation,
the caller of a recovery. So reports are counted against writes. `Act.pays` has it for one act: the
reports made and still owed of one end never grow by more than the writes of that end. How often an end
is written follows from what a record says when it is written to. A first end is written over `pending`
or `running`, and the only one to write another after that is a worker with a late cancellation whose
record has been cancelled by a recovery meanwhile.

Hence `State.terminal_reports`: all reports of the end of a task agree with its record, there are two at
most, and two only if that has happened. A deletion changes nothing in that: what is said of a record
here is said of the kept one.
-/
import Courier.Proofs.Scheduler.Agreement
import Courier.Proofs.Scheduler.Deletions
import Mathlib

namespace Courier

/-- The end that an event reports. -/
def Event.endStatus? : Event → Option Status
  | .completed .. => some .completed
  | .failed .. => some .failed
  | .cancelled _ => some .cancelled
  | _ => none

/-- Does the event report that the task has ended so? -/
def Event.ends (id : String) (status : Status) (e : Event) : Bool :=
  e.taskId = id ∧ e.endStatus? = some status

namespace Scheduler

def Effect.ends (id : String) (status : Status) : Effect → Bool
  | .report e => e.ends id status
  | _ => false

namespace Happening

/-- Is this a report that the task has ended so? -/
def reports (id : String) (status : Status) : Happening → Bool
  | .reported e => e.ends id status
  | _ => false

/-- Has the record of the task taken this status? -/
def stores (id : String) (status : Status) : Happening → Bool
  | .wrote x s _ => x = id ∧ s = status
  | _ => false

/-- Has the record of the task taken an end? -/
def storesEnd (id : String) : Happening → Bool
  | .wrote x s _ => x = id ∧ s.isTerminal
  | _ => false

end Happening

namespace Worker

/-- How often the worker has still to report that the task has ended so. -/
def owes (id : String) (status : Status) (w : Worker) : Nat :=
  match w.phase with
  | .effects es => es.countP (Effect.ends id status)
  | .clearing => if w.task.id = id ∧ .cancelled = status then 1 else 0
  | _ => 0

/-- Has the worker still to store a late cancellation of the task? -/
def isLate (id : String) (w : Worker) : Bool := w.task.id = id ∧ w.phase.cancelsLate = true

end Worker

namespace Ledger

variable (l : Ledger) (id : String) (status : Status)

/-- A sum over the workers. -/
def tally (f : Worker → Nat) : Nat := (l.workers.map f).sum

/-- How often the callers have still to report that the task has ended so. -/
def callsOwe : Nat := (l.calls.map (List.countP (Effect.ends id status))).sum

def owed : Nat := l.callsOwe id status + l.tally (Worker.owes id status)

def reported : Nat := l.history.countP (Happening.reports id status)

def stored : Nat := l.history.countP (Happening.stores id status)

/-- How often the record of the task has taken an end. -/
def endings : Nat := l.history.countP (Happening.storesEnd id)

/-- How many late cancellations of the task are still to be stored. -/
def late : Nat := l.tally fun w => (w.isLate id).toNat

end Ledger

variable {c : Setup} {E : Edits} {coming : List String} {kept : Store} {l l' : Ledger} {id : String}
  {status : Status}

/-! ## Sums -/

theorem sum_map_set {α : Type} (f : α → Nat) {xs : List α} {i : Nat} {x : α} (h : xs[i]? = some x)
    (y : α) : ((xs.set i y).map f).sum + f x = (xs.map f).sum + f y := by
  induction xs generalizing i with
  | nil => cases h
  | cons a xs ih =>
    cases i with
    | zero =>
      obtain rfl : a = x := Option.some.inj h
      simp only [List.set_cons_zero, List.map_cons, List.sum_cons]
      omega
    | succ i =>
      have := ih (i := i) h
      simp only [List.set_cons_succ, List.map_cons, List.sum_cons]
      omega

theorem sum_map_le_of_sublist {α : Type} (f : α → Nat) {xs ys : List α} (h : xs.Sublist ys) :
    (xs.map f).sum ≤ (ys.map f).sum :=
  (h.map f).sum_le_sum fun _ _ => Nat.zero_le _

namespace Ledger

theorem tally_of_eq (f : Worker → Nat) (workers : l'.workers = l.workers) : l'.tally f = l.tally f := by
  rw [tally, tally, workers]

theorem tally_of_map {f : Worker → Nat} {g : Worker → Worker} (workers : l'.workers = l.workers.map g)
    (same : ∀ w, f (g w) = f w) : l'.tally f = l.tally f := by
  rw [tally, tally, workers, List.map_map]
  exact congrArg List.sum (List.map_congr_left fun w _ => same w)

/-- A sum does not grow when workers go. -/
theorem tally_of_filter {f : Worker → Nat} {g : Worker → Worker} {p : Worker → Bool}
    (workers : l'.workers = (l.workers.filter p).map g) (same : ∀ w, f (g w) = f w) :
    l'.tally f ≤ l.tally f := by
  rw [tally, workers, List.map_map]
  refine le_trans (le_of_eq (congrArg List.sum (List.map_congr_left fun w _ => same w))) ?_
  exact sum_map_le_of_sublist f List.filter_sublist

/-- A sum changes by what it changes at the one worker that an act is about. -/
theorem tally_setWorker {ws : List Worker} (nodup : (ws.map Worker.seq).Nodup) {w : Worker}
    (here : w ∈ ws) (g : Worker → Worker) (f : Worker → Nat) :
    ((ws.map fun x => if x.seq = w.seq then g x else x).map f).sum + f w = (ws.map f).sum + f (g w) := by
  induction ws with
  | nil => cases here
  | cons x ws ih =>
    obtain ⟨hx, nodup⟩ := List.nodup_cons.mp nodup
    simp only [List.map_cons, List.sum_cons]
    rcases List.mem_cons.mp here with rfl | here
    · have rest : (ws.map fun x => if x.seq = w.seq then g x else x) = ws := by
        refine (List.map_congr_left fun x hxw => ?_).trans (List.map_id _)
        have hne : x.seq ≠ w.seq := fun heq => hx (heq ▸ List.mem_map_of_mem hxw)
        exact if_neg hne
      rw [rest, if_pos rfl]
      omega
    · have hne : x.seq ≠ w.seq := fun heq => hx (heq ▸ List.mem_map_of_mem here)
      have := ih nodup here
      rw [if_neg hne]
      omega

/-! ## Reports and writes -/

/-- The reports of an end, made and owed, have not grown by more than its writes. -/
def Pays (id : String) (status : Status) (l l' : Ledger) : Prop :=
  l'.reported id status + l'.owed id status + l.stored id status ≤
    l.reported id status + l.owed id status + l'.stored id status

theorem Pays.of_history (hs : List Happening) (history : l'.history = hs ++ l.history)
    (balance : hs.countP (Happening.reports id status) + l'.owed id status ≤
      l.owed id status + hs.countP (Happening.stores id status)) : Pays id status l l' := by
  unfold Pays reported stored
  rw [history, List.countP_append, List.countP_append]
  omega

/-- What a caller does. -/
theorem Pays.of_calls (hs : List Happening) (history : l'.history = hs ++ l.history)
    (workers : l'.tally (Worker.owes id status) ≤ l.tally (Worker.owes id status))
    (balance : hs.countP (Happening.reports id status) + l'.callsOwe id status ≤
      l.callsOwe id status + hs.countP (Happening.stores id status)) : Pays id status l l' := by
  refine .of_history hs history ?_
  unfold owed
  omega

theorem callsOwe_append {others : List (List Effect)} {es : List Effect} (calls : l.calls = others ++ [es]) :
    l.callsOwe id status =
      (others.map (List.countP (Effect.ends id status))).sum + es.countP (Effect.ends id status) := by
  simp [callsOwe, calls]

/-- What nobody has to report afterwards. -/
theorem Pays.aside (hs : List Happening) (history : l'.history = hs ++ l.history) (calls : l'.calls = l.calls)
    (workers : l'.tally (Worker.owes id status) ≤ l.tally (Worker.owes id status))
    (silent : hs.countP (Happening.reports id status) = 0) : Pays id status l l' := by
  refine .of_calls hs history workers ?_
  simp [callsOwe, calls, silent]

/-- A caller that comes brings a list along. -/
theorem Pays.arrives (hs : List Happening) (es : List Effect) (history : l'.history = hs ++ l.history)
    (workers : l'.workers = l.workers) (calls : l'.calls = l.calls ++ [es])
    (balance : hs.countP (Happening.reports id status) + es.countP (Effect.ends id status) ≤
      hs.countP (Happening.stores id status)) : Pays id status l l' := by
  refine .of_calls hs history (tally_of_eq _ workers).le ?_
  rw [callsOwe_append calls, ← callsOwe]
  omega

/-- What a worker does. -/
theorem Pays.of_worker (hs : List Happening) (history : l'.history = hs ++ l.history)
    (calls : l'.calls = l.calls) (nodup : (l.workers.map Worker.seq).Nodup) {w : Worker}
    (here : w ∈ l.workers) {g : Worker → Worker}
    (workers : l'.workers = l.workers.map fun x => if x.seq = w.seq then g x else x)
    (balance : hs.countP (Happening.reports id status) + (g w).owes id status ≤
      w.owes id status + hs.countP (Happening.stores id status)) : Pays id status l l' := by
  have htally := tally_setWorker nodup here g (Worker.owes id status)
  refine .of_history hs history ?_
  unfold owed callsOwe tally
  rw [calls, workers]
  omega

end Ledger

open Ledger

/-- Going on, a worker comes to owe nothing. -/
theorem Next.owes {w : Worker} {p : Phase} {hs : List Happening} (next : Next c l w p hs) (id : String)
    (status : Status) :
    ({ w with phase := p } : Worker).owes id status = 0 ∧ hs.countP (Happening.reports id status) = 0 := by
  cases next with
  | judge t result phase =>
    rcases storedPhase_cases (c.kinds.get? w.task.kind) w.told t result with h | h | ⟨-, h⟩ <;>
      rw [h] <;> exact ⟨rfl, rfl⟩
  | settle result millis phase =>
    rcases endedPhase_cases w.told w.task.remaining millis result with
      h | ⟨bytes, -, -, h⟩ | ⟨failure, -, -, ⟨left, -, h⟩ | ⟨-, h⟩⟩ <;>
      rw [h] <;> exact ⟨rfl, rfl⟩
  | givenUp e attempt phase => cases e <;> exact ⟨rfl, rfl⟩
  | _ => exact ⟨rfl, rfl⟩

/-- Every effect is owed until it is carried out. -/
theorem Effect.countP_happenings (e : Effect) (id : String) (status : Status) :
    e.happenings.countP (Happening.reports id status) = (e.ends id status).toNat ∧
      e.happenings.countP (Happening.stores id status) = 0 := by
  cases e with
  | report e => cases h : e.ends id status <;> simp [happenings, Happening.reports, Happening.stores, ends, h]
  | announce n => exact ⟨rfl, rfl⟩
  | wake => exact ⟨rfl, rfl⟩

theorem Effect.countP_cons (e : Effect) (es : List Effect) :
    (e :: es).countP (Effect.ends id status) =
      es.countP (Effect.ends id status) + (e.ends id status).toNat := by
  rw [List.countP_cons]
  cases e.ends id status <;> rfl

/-- An effect that is carried out is owed no longer. -/
theorem Effect.countP_carried_out (e : Effect) (es : List Effect) (id : String) (status : Status) :
    e.happenings.countP (Happening.reports id status) + es.countP (Effect.ends id status) =
      (e :: es).countP (Effect.ends id status) + e.happenings.countP (Happening.stores id status) := by
  obtain ⟨reports, stores⟩ := e.countP_happenings id status
  rw [reports, stores, Effect.countP_cons]
  omega

/-- A worker that sets out owes nothing. -/
theorem openingPhase_owes (c : Setup) (w : Worker) (now : Int) (id : String) (status : Status) :
    ({ w with phase := openingPhase c w.task, started := now } : Worker).owes id status = 0 := by
  rcases openingPhase_cases c w.task with ⟨failure, -, phase⟩ | ⟨t, phase⟩ <;> rw [phase] <;> rfl

/-- A recovery owes one report for each cancellation that it has stored. -/
theorem State.Recovery.countP_effects (done : State.Recovery) :
    done.effects.countP (Effect.ends id status) =
      done.cancelled.countP fun x => x = id ∧ .cancelled = status := by
  have cancels : (done.cancelled.map fun x => Effect.report (.cancelled x)).countP (Effect.ends id status) =
      done.cancelled.countP fun x => x = id ∧ .cancelled = status := by
    rw [List.countP_map]
    congr 1
    funext x
    simp [Effect.ends, Event.ends, Event.endStatus?, Event.taskId]
  have recovers : (done.recovered.map fun x => Effect.report (.recovered x.1 x.2)).countP
      (Effect.ends id status) = 0 := by
    rw [List.countP_map, List.countP_eq_zero]
    intro x _
    simp [Effect.ends, Event.ends, Event.endStatus?]
  have wakes : (if done.recovered.isEmpty then [] else [Effect.wake]).countP (Effect.ends id status) = 0 := by
    split <;> rfl
  unfold effects
  rw [List.countP_append, List.countP_append, cancels, wakes]
  exact congrArg (_ + · + 0) recovers

/-- What is stored of an end, is owed, once. -/
theorem storedStatusPhase_owes {w : Worker} {e : Ending} (releases : e.releases = true) :
    ({ w with phase := storedStatusPhase w.task e } : Worker).owes id status =
      [Happening.wrote w.task.id e.status e.error].countP (Happening.stores id status) := by
  have report (r : Event) (es : List Effect) (hid : r.taskId = w.task.id)
      (hend : r.endStatus? = some e.status) (rest : es.countP (Effect.ends id status) = 0) :
      (.report r :: es : List Effect).countP (Effect.ends id status) =
        [Happening.wrote w.task.id e.status e.error].countP (Happening.stores id status) := by
    by_cases hx : w.task.id = id <;> by_cases hs : e.status = status <;>
      simp [rest, Effect.ends, Event.ends, Happening.stores, hid, hend, hx, hs]
  cases e with
  | completed bytes millis => exact report _ _ rfl rfl rfl
  | cancelled => exact report _ _ rfl rfl rfl
  | failed failure => exact report _ _ rfl rfl rfl
  | retry failure left => cases releases
  | lateCancel => cases releases

/-- A worker goes to another phase. -/
theorem Ledger.Pays.of_phase (hs : List Happening) (p : Phase) (history : l'.history = hs ++ l.history)
    (calls : l'.calls = l.calls) (nodup : (l.workers.map Worker.seq).Nodup) {w : Worker} (here : w ∈ l.workers)
    (workers : l'.workers = (l.setPhase w.seq p).workers)
    (balance : hs.countP (Happening.reports id status) + ({ w with phase := p } : Worker).owes id status ≤
      w.owes id status + hs.countP (Happening.stores id status)) : Pays id status l l' :=
  .of_worker hs history calls nodup here (g := fun w => { w with phase := p }) workers balance

/-- A recovery has gathered one cancellation more if it has stored one. -/
theorem Ledger.Pays.gathers (hs : List Happening) {others : List (List Effect)} {done next : State.Recovery}
    (history : l'.history = hs ++ l.history) (workers : l'.workers = l.workers)
    (gathered : l.calls = others ++ [done.effects]) (calls : l'.calls = others ++ [next.effects])
    (silent : hs.countP (Happening.reports id status) = 0)
    (balance : next.cancelled.countP (fun x => x = id ∧ .cancelled = status) ≤
      done.cancelled.countP (fun x => x = id ∧ .cancelled = status) + hs.countP (Happening.stores id status)) :
    Pays id status l l' := by
  refine .of_calls hs history (tally_of_eq _ workers).le ?_
  rw [callsOwe_append gathered, callsOwe_append calls, done.countP_effects, next.countP_effects, silent]
  omega

/-- What is reported and owed of an end is written first. -/
theorem Act.pays (h : l.Owned) (act : Act c E l l') : Pays id status l l' := by
  have nodup := h.seqs_nodup
  cases act with
  -- A caller's act is paid from the list of that caller.
  | submit r store new pending put =>
    refine .arrives [_, _, _] _ rfl rfl rfl ?_
    simp [Happening.reports, Event.ends, Event.endStatus?, Effect.ends]
  | withdraw x store queued writes =>
    refine .arrives [_, _, _] _ rfl rfl rfl ?_
    by_cases hx : x = id <;> by_cases hs : Status.cancelled = status <;>
      simp [Happening.reports, Happening.stores, Event.ends, Event.endStatus?, Event.taskId, Effect.ends,
        hx, hs]
  | arrive => exact .arrives [] [] rfl rfl rfl (Nat.le_refl 0)
  | storeCancel x store outstanding writes listed others done gathered =>
    refine .gathers [_] rfl rfl gathered rfl rfl ?_
    by_cases hx : x = id <;> by_cases hs : Status.cancelled = status <;>
      simp [Happening.stores, State.Recovery.cancel, hx, hs]
  | takePending r notHeld notRunning' notQueued pending listed others done gathered =>
    exact .gathers [_] rfl rfl gathered rfl rfl (Nat.le_add_right _ _)
  | takeRunning r store notHeld notRunning' notQueued running listed writes others done gathered =>
    exact .gathers [_, _] rfl rfl gathered rfl rfl (Nat.le_add_right _ _)
  | breakOff others es gathered =>
    refine .of_calls [] rfl (tally_of_eq _ rfl).le ?_
    rw [callsOwe_append gathered]
    simp [callsOwe]
  | callEffect call e es next =>
    refine .of_calls e.happenings rfl (tally_of_eq _ rfl).le ?_
    have rest := sum_map_set (List.countP (Effect.ends id status)) next es
    have carried := e.countP_carried_out es id status
    simp only [callsOwe]
    omega
  | callReturn call done =>
    refine .of_calls [] rfl (tally_of_eq _ rfl).le ?_
    simpa [callsOwe] using sum_map_le_of_sublist (List.countP (Effect.ends id status))
      (List.eraseIdx_sublist l.calls call)
  -- Nothing is reported where the workers are told something, come or go.
  | edit store allowed => exact .aside [] rfl rfl (tally_of_eq _ rfl).le rfl
  | retell r found asked => exact .aside [_] rfl rfl (tally_of_eq _ rfl).le rfl
  | tell r found first =>
    refine .aside [_] rfl rfl (tally_of_map rfl fun w => ?_).le rfl
    split <;> rfl
  | claim task rest store head writes => exact .aside [_, _] rfl rfl (by simp [tally, Worker.owes]) rfl
  | stopAll =>
    exact .aside [] rfl rfl (tally_of_map (g := fun w => { w with told := true }) rfl fun _ => rfl).le rfl
  | giveUpAll => exact .aside [] rfl rfl (tally_of_filter rfl fun _ => rfl) rfl
  | vanish w here ended =>
    exact .aside [] rfl rfl (sum_map_le_of_sublist (Worker.owes id status) List.filter_sublist) rfl
  -- A worker's act is paid from what that worker owes.
  | start w now here phase =>
    refine .of_worker [_] rfl rfl nodup here rfl ?_
    simp [openingPhase_owes, Happening.reports, Event.ends, Event.endStatus?]
  | advance w p hs here next =>
    obtain ⟨none, silent⟩ := next.owes id status
    refine .of_phase hs p rfl rfl nodup here rfl ?_
    rw [none, silent]
    exact Nat.zero_le _
  | finish w e attempt store here phase releases writes =>
    refine .of_phase [_, _] (storedStatusPhase w.task e) rfl rfl nodup here rfl ?_
    rw [storedStatusPhase_owes releases]
    simp [Happening.reports, List.countP_cons, Happening.stores]
  | handBack w failure remaining attempt store here phase writes =>
    exact .of_phase [_] (.requeueing failure remaining) rfl rfl nodup here rfl (Nat.zero_le _)
  | lateStore w attempt store here phase writes =>
    refine .of_phase [_] .clearing rfl rfl nodup here rfl ?_
    simp [Happening.reports, Happening.stores, Worker.owes, phase, List.countP_cons]
  | letGo w es here phase reports =>
    refine .of_phase [_, _] (.effects es) rfl rfl nodup here rfl ?_
    have none : es.countP (Effect.ends id status) = 0 := by
      rcases reports with ⟨-, rfl⟩ | rfl
      · simp [Effect.ends, Event.ends, Event.endStatus?]
      · rfl
    simp [Happening.reports, Worker.owes, none]
  | requeue w failure remaining here phase unasked =>
    refine .of_phase [_, _, _] (.effects [.wake]) rfl rfl nodup here rfl ?_
    simp [Happening.reports, Event.ends, Event.endStatus?, Worker.owes, Effect.ends]
  | holdBack w failure remaining here phase asked =>
    exact .of_phase [_] (.writing .lateCancel 1) rfl rfl nodup here rfl (Nat.zero_le _)
  | clear w here phase =>
    refine .of_phase [] (.effects [.report (.cancelled w.task.id)]) rfl rfl nodup here rfl ?_
    simp [Worker.owes, phase, Effect.ends, Event.ends, Event.endStatus?, Event.taskId, List.countP_cons]
  | workerEffect w e es here phase =>
    refine .of_phase e.happenings (.effects es) rfl rfl nodup here rfl ?_
    simp only [Worker.owes, phase]
    exact (e.countP_carried_out es id status).le

/-! ## How often an end is written -/

/-- What an act does to a task, seen from the ends in its record and the late cancellations that are
still to be stored. -/
inductive Settles (id : String) (l l' : Ledger) : Prop
  | aside (endings : l'.endings id = l.endings id) (late : l'.late id ≤ l.late id)
  | heldBack (endings : l'.endings id = l.endings id) (late : l'.late id = 1)
      (before : l.store.status? id = some .pending)
  | ended (endings : l'.endings id = l.endings id + 1) (late : l'.late id ≤ l.late id)
      (before : l.store.status? id = some .pending ∨ l.store.status? id = some .running)
  | endedLate (endings : l'.endings id = l.endings id + 1) (late : l'.late id + 1 ≤ l.late id)
      (before : l.store.status? id = some .pending ∨ l.store.status? id = some .cancelled)
      (worker : ∃ w ∈ l.workers, w.task.id = id ∧ w.phase.cancelsLate = true)
      (others : l'.workers ≠ l.workers)

namespace Ledger

theorem endings_of_history (hs : List Happening) (history : l'.history = hs ++ l.history) :
    l'.endings id = l.endings id + hs.countP (Happening.storesEnd id) := by
  rw [endings, history, List.countP_append, Nat.add_comm]
  rfl

theorem late_of_worker (id : String) {k : Ledger} (nodup : (l.workers.map Worker.seq).Nodup) {w : Worker}
    (here : w ∈ l.workers) {g : Worker → Worker}
    (workers : k.workers = l.workers.map fun x => if x.seq = w.seq then g x else x) :
    k.late id + (w.isLate id).toNat = l.late id + ((g w).isLate id).toNat := by
  have htally := tally_setWorker nodup here g fun w => (w.isLate id).toNat
  unfold late tally
  rw [workers]
  exact htally

theorem late_le_of_worker (nodup : (l.workers.map Worker.seq).Nodup) {w : Worker} (here : w ∈ l.workers)
    {g : Worker → Worker} (workers : l'.workers = l.workers.map fun x => if x.seq = w.seq then g x else x)
    (phase : (g w).isLate id = true → w.isLate id = true) : l'.late id ≤ l.late id := by
  have := late_of_worker id nodup here workers
  have := Bool.toNat_le_toNat phase
  omega

/-- While a task is on its way back to the queue, no late cancellation of it is outstanding. -/
theorem Agrees.late_eq_zero (h : l.Agrees) {w : Worker} (here : w ∈ l.workers)
    (requeues : w.phase.requeues = true) : l.late w.task.id = 0 := by
  have pending := h.requeueing w here requeues
  have running := h.mem_runningIds here (Phase.holds_of_requeues requeues)
  refine List.sum_eq_zero ?_
  intro n hn
  obtain ⟨v, hv, rfl⟩ := List.mem_map.mp hn
  rw [Bool.toNat_eq_zero, ← Bool.not_eq_true]
  intro late
  obtain ⟨hid, late⟩ : v.task.id = w.task.id ∧ v.phase.cancelsLate = true := by simpa [Worker.isLate] using late
  rcases h.late v hv late with outstanding | cancelled
  · exact h.running_disjoint_cancelling running (hid ▸ outstanding)
  · rw [hid, pending] at cancelled
    cases cancelled

end Ledger

theorem countP_storesEnd_of_outward {hs : List Happening} (outward : ∀ x ∈ hs, x.outward = true) :
    hs.countP (Happening.storesEnd id) = 0 := by
  rw [List.countP_eq_zero]
  intro x hx
  cases x with
  | wrote y s e => exact absurd (outward _ hx) Bool.false_ne_true
  | _ => exact Bool.false_ne_true

theorem Settles.quiet (hs : List Happening) (history : l'.history = hs ++ l.history)
    (silent : hs.countP (Happening.storesEnd id) = 0) (late : l'.late id ≤ l.late id) : Settles id l l' :=
  .aside (by rw [endings_of_history hs history, silent]; rfl) late

/-- A worker goes to another phase and writes no end. -/
theorem Settles.of_phase (hs : List Happening) (p : Phase) (history : l'.history = hs ++ l.history)
    (silent : hs.countP (Happening.storesEnd id) = 0) (nodup : (l.workers.map Worker.seq).Nodup) {w : Worker}
    (here : w ∈ l.workers) (workers : l'.workers = (l.setPhase w.seq p).workers)
    (late : p.cancelsLate = true → w.phase.cancelsLate = true) : Settles id l l' := by
  refine .quiet hs history silent
    (late_le_of_worker (g := fun w => { w with phase := p }) nodup here workers fun isLate => ?_)
  obtain ⟨hid, isLate⟩ : w.task.id = id ∧ p.cancelsLate = true := by simpa [Worker.isLate] using isLate
  simpa [Worker.isLate] using And.intro hid (late isLate)

/-- A caller writes the end of one task, over `pending` or `running`. -/
theorem Settles.of_cancelled (hs : List Happening) {x : String} (history : l'.history = hs ++ l.history)
    (ends : hs.countP (Happening.storesEnd id) = if x = id then 1 else 0) (workers : l'.workers = l.workers)
    (before : l.store.status? x = some .pending ∨ l.store.status? x = some .running) : Settles id l l' := by
  by_cases hx : x = id
  · subst hx
    rw [if_pos rfl] at ends
    exact .ended ((endings_of_history hs history).trans (by rw [ends])) (tally_of_eq _ workers).le before
  · rw [if_neg hx] at ends
    exact .quiet hs history ends (tally_of_eq _ workers).le

/-- A worker writes the end of the task that it releases. -/
theorem Ledger.Agrees.settles_finish (h : l.Agrees) {w : Worker} {e : Ending} {attempt : Nat} {store : Store}
    (here : w ∈ l.workers) (phase : w.phase = .writing e attempt) (releases : e.releases = true) :
    Settles id l (((l.wrote store w.task.id e.status e.error).release w.task.id).setPhase w.seq
      (storedStatusPhase w.task e)) := by
  have unlate : (storedStatusPhase w.task e).cancelsLate = true → w.phase.cancelsLate = true := by
    cases e <;> simp [storedStatusPhase, Phase.cancelsLate]
  by_cases hid : w.task.id = id
  · have before := h.status_of_holds here (by rw [phase, Phase.holds_writing releases]) (by rw [phase]; rfl)
    refine .ended ((endings_of_history [_, _] rfl).trans ?_)
      (late_le_of_worker (g := fun x => { x with phase := storedStatusPhase w.task e }) h.seqs_nodup here rfl ?_)
      (Or.inr (hid ▸ before))
    · simp [Happening.storesEnd, hid, Ending.isTerminal_of_releases releases]
    · simpa [Worker.isLate, hid] using unlate
  · exact .of_phase [_, _] _ rfl (by simp [Happening.storesEnd, hid]) h.seqs_nodup here rfl unlate

/-- A worker writes a late cancellation, and has one less to write. -/
theorem Ledger.Agrees.settles_lateStore (h : l.Agrees) {w : Worker} {attempt : Nat} {store : Store}
    (here : w ∈ l.workers) (phase : w.phase = .writing .lateCancel attempt) :
    Settles id l ((l.wrote store w.task.id .cancelled "").setPhase w.seq .clearing) := by
  have was : w.phase.cancelsLate = true := by rw [phase]; rfl
  by_cases hid : w.task.id = id
  · have count := late_of_worker id (k := (l.wrote store w.task.id .cancelled "").setPhase w.seq .clearing)
      (g := fun w => { w with phase := .clearing }) h.seqs_nodup here rfl
    have isLate : w.isLate id = true := by simp [Worker.isLate, hid, was]
    have unlate : ({ w with phase := .clearing } : Worker).isLate id = false := by
      simp [Worker.isLate, Phase.cancelsLate]
    rw [isLate, unlate, Bool.toNat_false, Nat.add_zero] at count
    refine .endedLate ((endings_of_history [_] rfl).trans ?_) (le_of_eq count)
      (hid ▸ h.status_of_cancelsLate here was) ⟨w, here, hid, was⟩ fun same => ?_
    · simp [Happening.storesEnd, hid, Status.isTerminal]
    · -- The worker itself is found in another phase.
      have stored : ({ w with phase := .clearing } : Worker) ∈ l.workers :=
        same ▸ List.mem_map.mpr ⟨w, here, if_pos rfl⟩
      have phases := congrArg Worker.phase (h.worker_eq here stored rfl)
      rw [phase] at phases
      cases phases
  · exact .of_phase [_] .clearing rfl (by simp [Happening.storesEnd, hid]) h.seqs_nodup here rfl nofun

/-- A worker has a late cancellation to write, and is the only one that has. -/
theorem Ledger.Agrees.settles_holdBack (h : l.Agrees) {w : Worker} {failure : Failure} {remaining : Nat}
    (here : w ∈ l.workers) (phase : w.phase = .requeueing failure remaining) :
    Settles id l ({ l.release w.task.id with cancelling := l.cancelling ++ [w.task.id] }.setPhase w.seq
      (.writing .lateCancel 1)) := by
  have count := late_of_worker id
    (k := { l.release w.task.id with cancelling := l.cancelling ++ [w.task.id] }.setPhase w.seq
      (.writing .lateCancel 1)) (g := fun w => { w with phase := .writing .lateCancel 1 }) h.seqs_nodup here rfl
  have was : w.isLate id = false := by simp [Worker.isLate, phase, Phase.cancelsLate]
  rw [was] at count
  by_cases hid : w.task.id = id
  · subst hid
    have requeues : w.phase.requeues = true := by rw [phase]; rfl
    have isLate : ({ w with phase := .writing .lateCancel 1 } : Worker).isLate w.task.id = true := by
      simp [Worker.isLate, Phase.cancelsLate]
    rw [isLate, h.late_eq_zero here requeues] at count
    exact .heldBack (endings_of_history [.released w.task.id] rfl) count (h.requeueing w here requeues)
  · have unlate : ({ w with phase := .writing .lateCancel 1 } : Worker).isLate id = false := by
      simp [Worker.isLate, hid]
    rw [unlate] at count
    exact .quiet [_] rfl rfl (le_of_eq count)

/-- An end is written over `pending` or `running`, or by a late cancellation. -/
theorem Act.settles (h : l.Agrees) (act : Act c .additions l l') (id : String) : Settles id l l' := by
  have nodup := h.seqs_nodup
  cases act with
  -- Four acts write an end.
  | withdraw x store queued writes =>
    exact .of_cancelled [_, _, _] rfl (by simp [Happening.storesEnd, Status.isTerminal, List.countP_cons]) rfl
      (Or.inl (h.queued x queued))
  | storeCancel x store outstanding writes listed =>
    exact .of_cancelled [_] rfl (by simp [Happening.storesEnd, Status.isTerminal, List.countP_cons]) rfl
      (listed h.keyed)
  | finish w e attempt store here phase releases writes => exact h.settles_finish here phase releases
  | lateStore w attempt store here phase writes => exact h.settles_lateStore here phase
  | holdBack w failure remaining here phase asked => exact h.settles_holdBack here phase
  -- No other does, and none leaves more late cancellations to be written.
  | edit | arrive | breakOff | callReturn => exact .quiet [] rfl rfl (tally_of_eq _ rfl).le
  | retell | takePending => exact .quiet [_] rfl rfl (tally_of_eq _ rfl).le
  | takeRunning =>
    exact .quiet [_, _] rfl (by simp [Happening.storesEnd, Status.isTerminal]) (tally_of_eq _ rfl).le
  | submit =>
    exact .quiet [_, _, _] rfl (by simp [Happening.storesEnd, Status.isTerminal])
      (tally_of_eq _ rfl).le
  | callEffect call e =>
    exact .quiet _ rfl (countP_storesEnd_of_outward e.outward_happenings) (tally_of_eq _ rfl).le
  | tell r found first =>
    refine .quiet [_] rfl rfl (tally_of_map rfl fun w => ?_).le
    split <;> rfl
  | stopAll =>
    exact .quiet [] rfl rfl (tally_of_map (g := fun w => { w with told := true }) rfl fun _ => rfl).le
  | giveUpAll =>
    exact .quiet [] rfl rfl
      (tally_of_filter (g := fun w => { w with aborted := true }) rfl fun _ => rfl)
  | vanish w here ended =>
    exact .quiet [] rfl rfl (tally_of_filter (g := fun w => w) (List.map_id _).symm fun _ => rfl)
  | claim task rest store head writes =>
    refine .quiet [_, _] rfl (by simp [Happening.storesEnd, Status.isTerminal]) ?_
    simp [late, tally, Worker.isLate, Phase.cancelsLate]
  | start w now here phase =>
    refine .quiet [_] rfl rfl (late_le_of_worker nodup here rfl fun late => ?_)
    rcases openingPhase_cases c w.task with ⟨failure, -, hp⟩ | ⟨t, hp⟩ <;>
      simp [Worker.isLate, hp, Phase.cancelsLate] at late
  | advance w p hs here next =>
    exact .of_phase hs p rfl (countP_storesEnd_of_outward next.outward) nodup here rfl next.quiet.2.2.2
  | handBack w failure remaining attempt store here phase writes =>
    exact .of_phase [_] (.requeueing failure remaining) rfl (by simp [Happening.storesEnd, Status.isTerminal])
      nodup here rfl nofun
  | letGo w es here phase reports => exact .of_phase [_, _] (.effects es) rfl rfl nodup here rfl nofun
  | requeue w failure remaining here phase unasked =>
    exact .of_phase [_, _, _] (.effects [.wake]) rfl rfl nodup here rfl nofun
  | clear w here phase =>
    exact .of_phase [] (.effects [.report (.cancelled w.task.id)]) rfl rfl nodup here rfl nofun
  | workerEffect w e es here phase =>
    exact .of_phase e.happenings (.effects es) rfl (countP_storesEnd_of_outward e.outward_happenings)
      nodup here rfl nofun

/-- Where an end is written, there is a record. -/
theorem Act.known_of_endings (act : Act c E l l') (more : l.endings id < l'.endings id) :
    id ∈ l.store.ids := by
  obtain ⟨hs, history, noted⟩ := act.noted
  rw [endings_of_history hs history] at more
  obtain ⟨x, hx, ends⟩ := List.countP_pos_iff.mp (Nat.pos_of_lt_add_right more)
  cases x with
  | wrote y status error =>
    obtain ⟨rfl, terminal⟩ : y = id ∧ status.isTerminal = true := by simpa [Happening.storesEnd] using ends
    cases noted _ hx with
    | outward x outward => cases outward
    | ended w e attempt here phase known after => exact known
    | stored x status cases known after =>
      refine known.resolve_left ?_
      rintro rfl
      cases terminal
  | _ => cases ends

/-! ## The invariant -/

namespace Ledger

/-- What is known of the end of one task: its record has never held two different ones, a cancellation
is the only one that is ever written once more, by the worker of a late one, and nothing is reported that
is not written. -/
structure Settled (id : String) (l : Ledger) : Prop extends l.Agrees where
  same : ∀ status error, .wrote id status error ∈ l.history → status.isTerminal = true →
    l.store.status? id = some status
  late_le : l.late id ≤ 1
  twice : l.endings id + l.late id ≤ 2
  again : 1 < l.endings id → l.store.status? id = some .cancelled
  paid : ∀ status, l.reported id status + l.owed id status ≤ l.stored id status

namespace Settled

theorem init (c : Setup) {disk : Disk} (keyed : disk.store.Keyed) (id : String) :
    (State.init c disk).ledger.Settled id where
  toAgrees := .init c keyed
  same := fun _ _ wrote => by cases wrote
  late_le := Nat.zero_le 1
  twice := Nat.zero_le 2
  again := fun more => absurd more (Nat.not_lt_zero 1)
  paid := fun _ => Nat.zero_le 0

/-- While a task is unfinished, no end of it has been written. -/
theorem endings_eq_zero (h : l.Settled id)
    (unfinished : l.store.status? id = some .pending ∨ l.store.status? id = some .running) :
    l.endings id = 0 := by
  refine List.countP_eq_zero.mpr ?_
  intro x hx ends
  cases x with
  | wrote y status error =>
    obtain ⟨rfl, terminal⟩ : y = id ∧ status.isTerminal = true := by simpa [Happening.storesEnd] using ends
    have stored := h.same status error hx terminal
    rcases unfinished with before | before <;> rw [before] at stored <;> cases stored <;> cases terminal
  | _ => cases ends

theorem same_step (h : l.Settled id) (act : Act c .additions l l') (status : Status) (error : String)
    (wrote : .wrote id status error ∈ l'.history) (terminal : status.isTerminal = true) :
    l'.store.status? id = some status := by
  obtain ⟨hs, history, noted⟩ := act.noted
  rw [history] at wrote
  rcases List.mem_append.mp wrote with wrote | wrote
  · cases noted _ wrote with
    | outward x outward => cases outward
    | ended w e attempt here phase known after => exact after
    | stored x status cases known after => exact after
  · exact h.terminal_step act terminal (h.same status error wrote terminal)

theorem step (h : l.Settled id) (act : Act c .additions l l') : l'.Settled id where
  toAgrees := h.toAgrees.step act
  same := h.same_step act
  late_le := by
    have := h.late_le
    cases act.settles h.toAgrees id with
    | aside endings late => omega
    | heldBack endings late before => omega
    | ended endings late before => omega
    | endedLate endings late before => omega
  twice := by
    -- A late cancellation is held back while the record is `pending`, so before any end is written.
    have := h.late_le
    have := h.twice
    cases act.settles h.toAgrees id with
    | aside endings late => omega
    | heldBack endings late before =>
      have := h.endings_eq_zero (Or.inl before)
      omega
    | ended endings late before =>
      have := h.endings_eq_zero before
      omega
    | endedLate endings late before => omega
  again := by
    intro more
    cases act.settles h.toAgrees id with
    | aside endings late => exact h.terminal_step act rfl (h.again (endings ▸ more))
    | heldBack endings late before => exact h.terminal_step act rfl (h.again (endings ▸ more))
    | ended endings late before =>
      have := h.endings_eq_zero before
      omega
    | endedLate endings late before worker others =>
      rcases before with before | before
      · have := h.endings_eq_zero (Or.inl before)
        omega
      · exact h.terminal_step act rfl before
  paid := fun status => by
    have := h.paid status
    have pays : Pays id status l l' := act.pays h.toOwned
    unfold Pays at pays
    omega

/-- One act over the kept store. -/
theorem step_over (h : (l.over kept).Settled id) (keeps : Store.Keeps coming kept l.store)
    (act : OneAct c (.coming coming) l l') :
    ∃ kept', Store.Keeps coming kept' l'.store ∧ (l'.over kept').Settled id ∧
      (l'.endings id ≤ max 1 (l.endings id) ∨ l.store.status? id = some .cancelled ∧
        ∃ w ∈ l.workers, w.task.id = id ∧ w.phase.cancelsLate = true) := by
  cases act with
  | refl => exact ⟨kept, keeps, h, Or.inl (le_max_right 1 _)⟩
  | single act =>
    obtain ⟨kept', keeps', act'⟩ := act.over keeps
    refine ⟨kept', keeps', h.step act', ?_⟩
    have none (unfinished : kept.status? id = some .pending ∨ kept.status? id = some .running) :
        l.endings id = 0 := h.endings_eq_zero unfinished
    cases act'.settles h.toAgrees id with
    | aside endings late =>
      have endings : l'.endings id = l.endings id := endings
      omega
    | heldBack endings late before =>
      have endings : l'.endings id = l.endings id := endings
      omega
    | ended endings late before =>
      have endings : l'.endings id = l.endings id + 1 := endings
      have := none before
      omega
    | endedLate endings late before worker others =>
      have endings : l'.endings id = l.endings id + 1 := endings
      rcases before with before | before
      · have := none (Or.inl before)
        omega
      · have known : id ∈ l.store.ids := act.known_of_endings (by omega)
        exact Or.inr ⟨(keeps.status known).2.symm.trans before, worker⟩

/-- Without a worker at it, no end is written a second time. -/
theorem endings_of_aside (h : l.Settled id) (aside : ActsAside c .additions l l') :
    l'.Settled id ∧ l'.endings id ≤ max 1 (l.endings id) := by
  induction aside with
  | refl => exact ⟨h, le_max_right 1 _⟩
  | tail _ act ih =>
    obtain ⟨settled, bound⟩ := ih
    refine ⟨settled.step act.1, ?_⟩
    cases act.1.settles settled.toAgrees id with
    | aside endings late => omega
    | heldBack endings late before => omega
    | ended endings late before =>
      have := settled.endings_eq_zero before
      omega
    | endedLate endings late before worker others => exact absurd act.2 others

end Settled

end Ledger

namespace State

/-! ## Runs -/

/-- The record of the task has been cancelled while the worker of a late cancellation has still to store
the same. -/
def Overtaken (id : String) (s : State) : Prop :=
  s.disk.store.status? id = some .cancelled ∧
    ∃ w ∈ s.workers, w.task.id = id ∧ w.phase.cancelsLate = true

instance (id : String) (s : State) : Decidable (s.Overtaken id) :=
  inferInstanceAs (Decidable (_ ∧ ∃ w ∈ s.workers, w.task.id = id ∧ w.phase.cancelsLate = true))

theorem settled_step {s : State} {m : Move} {ms : List Move} (run : s.Tidy c (m :: ms))
    (keeps : Store.Keeps (brought (m :: ms)) kept s.disk.store) (h : (s.ledger.over kept).Settled id) :
    ∃ kept', Store.Keeps (brought ms) kept' (s.step c m).disk.store ∧
      ((s.step c m).ledger.over kept').Settled id ∧
      ((s.step c m).ledger.endings id ≤ max 1 (s.ledger.endings id) ∨ s.Overtaken id) := by
  have rest := brought_tail m ms
  rcases run.head with rfl | ⟨x, rfl, once⟩ | act
  · obtain ⟨kept', keeps', aside⟩ := s.recover_acts.over keeps
    obtain ⟨settled, bound⟩ := h.endings_of_aside aside
    exact ⟨kept', keeps'.mono rest, settled, Or.inl bound⟩
  · exact ⟨kept, (keeps.mono rest).delete once, h, Or.inl (le_max_right 1 _)⟩
  · obtain ⟨kept', keeps', settled, bound⟩ := h.step_over keeps act
    exact ⟨kept', keeps'.mono rest, settled, bound⟩

theorem settled_run {s : State} {ms : List Move} (run : s.Tidy c ms)
    (keeps : Store.Keeps (brought ms) kept s.disk.store) (h : (s.ledger.over kept).Settled id) :
    ∃ kept', Store.Keeps [] kept' (s.run c ms).disk.store ∧
      ((s.run c ms).ledger.over kept').Settled id ∧
      ((s.run c ms).ledger.endings id ≤ max 1 (s.ledger.endings id) ∨
        ∃ xs ys, ms = xs ++ ys ∧ (s.run c xs).Overtaken id) := by
  induction ms generalizing s kept with
  | nil => exact ⟨kept, keeps, h, Or.inl (le_max_right 1 _)⟩
  | cons m ms ih =>
    obtain ⟨kept', keeps', settled, first⟩ := settled_step run keeps h
    obtain ⟨kept'', keeps'', final, rest⟩ := ih run.tail keeps' settled
    refine ⟨kept'', keeps'', final, ?_⟩
    rcases first with first | overtaken
    · rcases rest with rest | ⟨xs, ys, rfl, overtaken⟩
      · have rest : ((s.step c m).run c ms).ledger.endings id ≤ _ := rest
        refine Or.inl (rest.trans ?_)
        omega
      · exact Or.inr ⟨m :: xs, ys, rfl, overtaken⟩
    · exact Or.inr ⟨[], m :: ms, rfl, overtaken⟩

/-! ## Events -/

/-- The reports of how a task has ended, the first one first. -/
def endReports (s : State) (id : String) : List Event :=
  s.events.filter fun e => e.taskId = id ∧ e.endStatus?.isSome

theorem mem_endReports {s : State} {e : Event} :
    e ∈ s.endReports id ↔ .reported e ∈ s.history ∧ e.taskId = id ∧ e.endStatus?.isSome = true := by
  simp [endReports, mem_events]

theorem countP_endReports (s : State) :
    (s.endReports id).countP (Event.ends id status) = s.ledger.reported id status := by
  unfold endReports events Ledger.reported
  rw [List.countP_filter, List.countP_filterMap, List.countP_reverse]
  apply List.countP_congr
  intro x _
  cases x with
  | reported e =>
    suffices e.taskId = id → e.endStatus? = some status → e.taskId = id ∧ e.endStatus?.isSome = true by
      simpa [Happening.reports, Event.ends]
    rintro hid hend
    exact ⟨hid, by rw [hend]; rfl⟩
  | _ => rfl

/-- What is reported of the end of a task is what the kept record says. -/
theorem stored_of_endReport {s : State} (h : (s.ledger.over kept).Settled id) {e : Event}
    (he : e ∈ s.endReports id) :
    ∃ status, e.ends id status = true ∧ status.isTerminal = true ∧ kept.status? id = some status := by
  obtain ⟨-, hid, hend⟩ := mem_endReports.mp he
  obtain ⟨status, hend⟩ := Option.isSome_iff_exists.mp hend
  have terminal : status.isTerminal = true := by
    cases e <;> cases hend <;> rfl
  have ends : e.ends id status = true := by simp [Event.ends, hid, hend]
  have reported : 0 < s.ledger.reported id status := by
    rw [← countP_endReports]
    exact List.countP_pos_iff.mpr ⟨e, he, ends⟩
  have written : 0 < s.ledger.stored id status := by
    have paid : s.ledger.reported id status + s.ledger.owed id status ≤ s.ledger.stored id status :=
      h.paid status
    omega
  obtain ⟨x, hx, stores⟩ := List.countP_pos_iff.mp written
  cases x with
  | wrote y st error =>
    obtain ⟨rfl, rfl⟩ : y = id ∧ st = status := by simpa [Happening.stores] using stores
    exact ⟨st, ends, terminal, h.same st error hx terminal⟩
  | _ => cases stores

/-- No more reports than ends in the record. -/
theorem length_endReports_le {s : State} (h : (s.ledger.over kept).Settled id) :
    (s.endReports id).length ≤ s.ledger.endings id := by
  by_cases none : s.endReports id = []
  · rw [none]
    exact Nat.zero_le _
  · obtain ⟨e, he⟩ := List.exists_mem_of_ne_nil _ none
    obtain ⟨status, -, terminal, hstored⟩ := stored_of_endReport h he
    have all : ∀ x ∈ s.endReports id, x.ends id status = true := by
      intro x hx
      obtain ⟨other, ends, -, hother⟩ := stored_of_endReport h hx
      obtain rfl : other = status := Option.some.inj (hother.symm.trans hstored)
      exact ends
    calc (s.endReports id).length
      _ = (s.endReports id).countP (Event.ends id status) := (List.countP_eq_length.mpr all).symm
      _ = s.ledger.reported id status := countP_endReports s
      _ ≤ s.ledger.stored id status := by
        have paid : s.ledger.reported id status + s.ledger.owed id status ≤ s.ledger.stored id status :=
          h.paid status
        omega
      _ ≤ s.ledger.endings id := by
        apply List.countP_mono_left
        intro x _ stores
        cases x with
        | wrote y st error =>
          obtain ⟨rfl, rfl⟩ : y = id ∧ st = status := by simpa [Happening.stores] using stores
          simp [Happening.storesEnd, terminal]
        | _ => cases stores

/-- The reports of the end of a task, over every run in which an id names one task for good, whatever
the store refuses and whichever records are deleted. They all agree, with each other and with the record
as long as it is there. There are two at most, and only after its cancellation had been stored by
somebody else when its worker came to store it: then both report that cancellation. -/
theorem terminal_reports (c : Setup) (disk : Disk) (keyed : disk.store.Keyed) (ms : List Move)
    (run : (State.init c disk).Tidy c ms) (id : String) :
    let s := (State.init c disk).run c ms
    (∀ e ∈ s.endReports id, ∀ f ∈ s.endReports id, e.endStatus? = f.endStatus?) ∧
      (∀ e ∈ s.endReports id, id ∈ s.disk.store.ids → e.endStatus? = s.disk.store.status? id) ∧
      (s.endReports id).length ≤ 2 ∧
      (1 < (s.endReports id).length →
        s.endReports id = [.cancelled id, .cancelled id] ∧
          ∃ xs ys, ms = xs ++ ys ∧ ((State.init c disk).run c xs).Overtaken id) := by
  intro s
  obtain ⟨kept, keeps, settled, bound⟩ :=
    settled_run run (.refl (brought ms) keyed : Store.Keeps _ disk.store _) (.init c keyed id)
  have settled : (s.ledger.over kept).Settled id := settled
  have bound : s.ledger.endings id ≤ 1 ∨
    ∃ xs ys, ms = xs ++ ys ∧ ((State.init c disk).run c xs).Overtaken id := bound
  have agree : ∀ e ∈ s.endReports id, e.endStatus? = kept.status? id := by
    intro e he
    obtain ⟨status, ends, -, hstored⟩ := stored_of_endReport settled he
    have ends : e.taskId = id ∧ e.endStatus? = some status := by simpa [Event.ends] using ends
    rw [ends.2, hstored]
  have length := length_endReports_le settled
  have twice : s.ledger.endings id + s.ledger.late id ≤ 2 := settled.twice
  refine ⟨fun e he f hf => (agree e he).trans (agree f hf).symm,
    fun e he known => (agree e he).trans (keeps.status known).2, by omega, ?_⟩
  intro more
  have again : 1 < s.ledger.endings id := by omega
  have cancelled : kept.status? id = some .cancelled := settled.again again
  refine ⟨List.eq_replicate_iff (n := 2) |>.mpr ⟨by omega, ?_⟩, bound.resolve_left (Nat.not_le.mpr again)⟩
  intro e he
  obtain ⟨-, hid, -⟩ := mem_endReports.mp he
  have hend := (agree e he).trans cancelled
  cases e <;> cases hend
  exact congrArg Event.cancelled hid

/-- A task is cancelled while its worker waits to store `pending`. The worker holds it back, its write of
`cancelled` is refused, and it waits once more. -/
def heldBackRun : List Move :=
  [.outage (.update .pending) (.times 1), .submit "a" "mem" (Transfer.encode ⟨"a", "out/a"⟩) "film",
    .start, .loop .go, .loop .permit, .loop .go, .loop .go, .worker 0 .go, .worker 0 .go,
    .worker 0 (.fetched (.error ⟨.network, "down"⟩)), .worker 0 .go, .worker 0 .go, .cancel "a",
    .outage (.update .cancelled) (.times 1), .worker 0 .go, .worker 0 .go, .worker 0 .go, .worker 0 .go]

/-- A recovery stores and reports the cancellation, and then the worker does the same. -/
def overtakingRun : List Move :=
  [.recover, .resume 1, .worker 0 .go, .worker 0 .go, .worker 0 .go, .worker 0 .go]

/-- Two reports show that the worker has been overtaken. -/
theorem terminal_reports_overtaken :
    let s := State.init (Setup.small 1) {}
    let t := s.run (Setup.small 1) (heldBackRun ++ overtakingRun)
    (s.Tidy (Setup.small 1) (heldBackRun ++ overtakingRun) ∧ 1 < (t.endReports "a").length) ∧
      ∃ xs ys, heldBackRun ++ overtakingRun = xs ++ ys ∧
        (s.run (Setup.small 1) xs).Overtaken "a" := by
  have run : (State.init (Setup.small 1) {}).Tidy (Setup.small 1) (heldBackRun ++ overtakingRun) := by
    decide +kernel
  have more : 1 < (((State.init (Setup.small 1) {}).run (Setup.small 1)
      (heldBackRun ++ overtakingRun)).endReports "a").length := by decide +kernel
  obtain ⟨-, -, -, twice⟩ := terminal_reports (Setup.small 1) {} List.nodup_nil _ run "a"
  exact ⟨⟨run, more⟩, (twice more).2⟩

/-- The end of one task is reported twice. -/
theorem cancellation_reported_twice :
    let s := (State.init (Setup.small 1) {}).run (Setup.small 1) (heldBackRun ++ overtakingRun)
    (State.init (Setup.small 1) {}).Tidy (Setup.small 1) (heldBackRun ++ overtakingRun) ∧
      s.endReports "a" = [.cancelled "a", .cancelled "a"] ∧ ¬(s.endReports "a").length ≤ 1 := by
  refine ⟨by decide +kernel, by decide +kernel, by decide +kernel⟩

end State

end Scheduler

end Courier
