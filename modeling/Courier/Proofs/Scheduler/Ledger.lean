/-
# Courier.Proofs.Scheduler.Ledger -- where the tasks are

Only part of a scheduler's state says where each task is and what has become of it: the queue, the
running and the cancelling set, the workers, the callers, the store and the history. `State.ledger`
is that part. The dispatch loop, the permits, the link, the clock and the outages of the disk are left
out; they decide *whether* something happens, never what.

`Act` says once what can happen to a ledger: one constructor for each thing that can happen, with all
that holds when it does. That every move of a scheduler is a row of acts is proved in
`Courier.Proofs.Scheduler.Moves`. The invariants of the modules after it are proved act by act.

Which records come and go is a parameter: an `Edits` says which changes of the store may be asked for
from outside, by a submission or by another program.
-/
import Courier.Proofs.Store.Status
import Courier.Scheduler.Run
import Mathlib.Logic.Relation

namespace Courier.Scheduler

/-- An outstanding cancellation is stored. -/
def State.Recovery.cancel (done : State.Recovery) (id : String) : State.Recovery :=
  { done with cancelled := done.cancelled ++ [id] }

/-- The task of a record is queued. -/
def State.Recovery.take (done : State.Recovery) (r : Record) : State.Recovery :=
  { done with recovered := done.recovered ++ [(r.id, r.status)] }

/-- Where the tasks are and what has happened. -/
structure Ledger where
  queue : List Queued
  running : List Running
  cancelling : List String
  nextSeq : Nat
  workers : List Worker
  calls : List (List Effect)
  store : Store
  history : List Happening

def State.ledger (s : State) : Ledger where
  queue := s.queue
  running := s.running
  cancelling := s.cancelling
  nextSeq := s.nextSeq
  workers := s.workers
  calls := s.calls
  store := s.disk.store
  history := s.history

/-- What an effect leaves in the history. -/
def Effect.happenings : Effect → List Happening
  | .report e => [.reported e]
  | .announce n => [.announced n]
  | .wake => []

/-- What a worker may still have to do when it has let go of its task. -/
inductive Worker.Outcome (w : Worker) : List Effect → Prop
  | nothing : w.Outcome []
  | requeued : w.Outcome [.wake]
  | interrupted : w.Outcome [.report (.interrupted w.task.id)]
  | cancelled : w.Outcome [.report (.cancelled w.task.id)]
  | completed (bytes millis : Nat) :
      w.Outcome [.report (.completed w.task.id bytes millis), .announce (.taskSucceeded w.task.title)]
  | failed (failure : Failure) :
      w.Outcome [.report (.failed w.task.id failure), .announce (.taskFailed w.task.title failure.text)]
  /-- The end has been reported. -/
  | announcing (n : Notice) : w.Outcome [.announce n]

/-- Is the worker between its claim and its release? -/
def Phase.holds : Phase → Bool
  | .writing .lateCancel _ | .pausing .lateCancel _ | .clearing | .effects _ => false
  | _ => true

/-- Has the worker stored `pending` and not yet put its task back? -/
def Phase.requeues : Phase → Bool
  | .requeueing .. => true
  | _ => false

/-- Has the attempt of the worker come to a result? -/
def Phase.isOver : Phase → Bool
  | .claimed | .opening _ | .fetching _ | .storing _ | .stored .. | .rollingBack _ => false
  | _ => true

/-- Is the worker about to store a late cancellation? -/
def Phase.cancelsLate : Phase → Bool
  | .writing .lateCancel _ | .pausing .lateCancel _ => true
  | _ => false

namespace Ledger

variable (l : Ledger)

def queuedIds : List String := l.queue.map Queued.id

def runningIds : List String := l.running.map Running.id

/-- The tasks in memory, place by place. -/
def tracked : List String := l.queuedIds ++ l.runningIds ++ l.cancelling

/-- Nobody has used the id so far: it names no record, and no task has ever been queued under it. -/
def isNew (id : String) : Prop := id ∉ l.store.ids ∧ .enqueued id ∉ l.history

/-- Was the cancellation of the running task asked for? -/
def requested (id : String) : Bool :=
  match l.running.find? fun r => r.id = id with
  | some r => r.cancelRequested
  | none => false

/-! ## Changes -/

def note (hs : List Happening) : Ledger := { l with history := hs ++ l.history }

def setWorker (seq : Nat) (f : Worker → Worker) : Ledger :=
  { l with workers := l.workers.map fun w => if w.seq = seq then f w else w }

def setPhase (seq : Nat) (p : Phase) : Ledger :=
  l.setWorker seq fun w => { w with phase := p }

def release (id : String) : Ledger :=
  { l with
    running := l.running.filter fun r => r.id ≠ id
    history := .released id :: l.history }

/-- The store has taken a status. -/
def wrote (store : Store) (id : String) (status : Status) (error : String) : Ledger :=
  { l with store, history := .wrote id status error :: l.history }

/-- `store` is what the store becomes when it takes a status. -/
def Writes (id : String) (status : Status) (error : String) (store : Store) : Prop :=
  ∃ now, l.store.updateStatus id status error now = .ok store

/-- A new entry at the end of the queue. -/
def enqueue (t : Queued) : Ledger :=
  { l with queue := l.queue ++ [t], history := .enqueued t.id :: l.history }

end Ledger

/-! ## What a worker does by itself -/

/-- The steps of a worker that change its phase and nothing else: the phase after the step and what is
noted of it. -/
inductive Next (c : Setup) (l : Ledger) (w : Worker) : Phase → List Happening → Prop
  | fetch (t : Transfer) (phase : w.phase = .opening t) :
      Next c l w (.fetching t) [.fetched w.seq t.source]
  | stop (t : Transfer) (phase : w.phase = .opening t ∨ w.phase = .fetching t)
      (told : w.told = true) : Next c l w (.ended (.error Failure.cancelled)) []
  | fetched (t : Transfer) (phase : w.phase = .fetching t) :
      Next c l w (.storing t) [.put w.seq t.destination]
  | unfetched (t : Transfer) (failure : Failure) (phase : w.phase = .fetching t) :
      Next c l w (.ended (.error failure)) []
  | stored (t : Transfer) (result : Except Failure Nat) (phase : w.phase = .storing t) :
      Next c l w (.stored t result) []
  | judge (t : Transfer) (result : Except Failure Nat) (phase : w.phase = .stored t result) :
      Next c l w (storedPhase (c.kinds.get? w.task.kind) w.told t result) []
  | rolledBack (t : Transfer) (phase : w.phase = .rollingBack t) :
      Next c l w (.ended (.error Failure.cancelled)) [.rolledBack w.seq t.destination]
  | settle (result : Except Failure Nat) (millis : Nat) (phase : w.phase = .ended result) :
      Next c l w (endedPhase w.told w.task.remaining millis result) []
  | interrupted (phase : w.phase = .stopped) (asked : l.requested w.task.id = false) :
      Next c l w .leaving []
  | cancelled (phase : w.phase = .stopped) (asked : l.requested w.task.id = true) :
      Next c l w (.writing .cancelled 1) []
  | refused (e : Ending) (attempt : Nat) (phase : w.phase = .writing e attempt)
      (again : attempt < writeAttempts) : Next c l w (.pausing e attempt) []
  /-- After the last refusal, or after any when the record is gone. -/
  | givenUp (e : Ending) (attempt : Nat) (phase : w.phase = .writing e attempt) :
      Next c l w (givenUpPhase e) []
  | again (e : Ending) (attempt : Nat) (phase : w.phase = .pausing e attempt)
      (aborted : w.aborted = false) : Next c l w (.writing e (attempt + 1)) []

/-! ## Acts -/

/-- Which changes of the store may be asked for from outside. -/
abbrev Edits := Ledger → Store → Prop

/-- Anything: records are written and deleted at will. -/
def Edits.any : Edits := fun l store =>
  (∃ r, l.store.put r = .ok store) ∨ ∃ id, store = (l.store.delete id).2

/-- Records are added under new ids, and none is changed or deleted. -/
def Edits.additions : Edits := fun l store =>
  ∃ r, l.isNew r.id ∧ l.store.put r = .ok store

/-- None. -/
def Edits.none : Edits := fun _ _ => False

/-- One thing that happens. -/
inductive Act (c : Setup) (E : Edits) (l : Ledger) : Ledger → Prop
  /-- Somebody else changes the store. -/
  | edit (store : Store) (allowed : E l store) : Act c E l { l with store }
  /-- A new task is stored, queued and reported. -/
  | submit (r : Record) (store : Store) (new : l.isNew r.id) (pending : r.status = .pending)
      (put : l.store.put r = .ok store) (allowed : E l store) :
      Act c E l
        { l with
          store
          queue := l.queue ++ [Queued.ofRecord c r]
          calls := l.calls ++ [[.wake]]
          history := .reported (.submitted r.id r.kind r.title) :: .enqueued r.id ::
            .wrote r.id .pending "" :: l.history }
  /-- A queued task is cancelled. -/
  | withdraw (id : String) (store : Store) (queued : id ∈ l.queuedIds)
      (writes : l.Writes id .cancelled "" store) :
      Act c E l
        { l with
          store
          queue := l.queue.eraseP fun t => t.id = id
          calls := l.calls ++ [[.report (.cancelled id)]]
          history := .accepted id :: .withdrawn id :: .wrote id .cancelled "" :: l.history }
  /-- The cancellation of a running task is asked for. -/
  | tell (r : Running) (found : r ∈ l.running) (first : r.cancelRequested = false) :
      Act c E l
        { l with
          running := l.running.map fun x =>
            if x.id = r.id then { x with cancelRequested := true } else x
          workers := l.workers.map fun w => if w.seq = r.seq then { w with told := true } else w
          history := .accepted r.id :: l.history }
  /-- It is asked for once more. -/
  | retell (r : Running) (found : r ∈ l.running) (asked : r.cancelRequested = true) :
      Act c E l (l.note [.accepted r.id])
  /-- A recovery takes the lock. What it will have to do outside it is gathered as the last caller. -/
  | arrive : Act c E l { l with calls := l.calls ++ [[]] }
  /-- A recovery stores an outstanding cancellation. -/
  | storeCancel (id : String) (store : Store) (outstanding : id ∈ l.cancelling)
      (writes : l.Writes id .cancelled "" store)
      (listed : l.store.Keyed →
        l.store.status? id = some .pending ∨ l.store.status? id = some .running)
      (others : List (List Effect)) (done : State.Recovery) (gathered : l.calls = others ++ [done.effects]) :
      Act c E l
        { l.wrote store id .cancelled "" with
          cancelling := l.cancelling.erase id
          calls := others ++ [(done.cancel id).effects] }
  /-- A recovery queues a pending task that is not known. -/
  | takePending (r : Record) (notHeld : r.id ∉ l.cancelling) (notRunning : r.id ∉ l.runningIds)
      (notQueued : r.id ∉ l.queuedIds) (pending : r.status = .pending)
      (listed : l.store.Keyed → l.store.row? r.id = some r.row)
      (others : List (List Effect)) (done : State.Recovery) (gathered : l.calls = others ++ [done.effects]) :
      Act c E l
        { l.enqueue (Queued.ofRecord c r) with calls := others ++ [(done.take r).effects] }
  /-- A recovery queues a task that is stored as running and not known. -/
  | takeRunning (r : Record) (store : Store) (notHeld : r.id ∉ l.cancelling)
      (notRunning : r.id ∉ l.runningIds) (notQueued : r.id ∉ l.queuedIds)
      (running : r.status = .running)
      (listed : l.store.Keyed → l.store.row? r.id = some r.row)
      (writes : l.Writes r.id .pending "" store)
      (others : List (List Effect)) (done : State.Recovery) (gathered : l.calls = others ++ [done.effects]) :
      Act c E l
        { (l.wrote store r.id .pending "").enqueue (Queued.ofRecord c r) with
          calls := others ++ [(done.take r).effects] }
  /-- A recovery fails; nothing that it has gathered will be done. -/
  | breakOff (others : List (List Effect)) (es : List Effect) (gathered : l.calls = others ++ [es]) :
      Act c E l { l with calls := others }
  /-- A caller carries out an effect. -/
  | callEffect (call : Nat) (e : Effect) (es : List Effect) (next : l.calls[call]? = some (e :: es)) :
      Act c E l { l.note e.happenings with calls := l.calls.set call es }
  /-- A caller returns. -/
  | callReturn (call : Nat) (done : l.calls[call]? = some []) :
      Act c E l { l with calls := l.calls.eraseIdx call }
  /-- The head of the queue is claimed. -/
  | claim (task : Queued) (rest : List Queued) (store : Store) (head : l.queue = task :: rest)
      (writes : l.Writes task.id .running "" store) :
      Act c E l
        { l with
          store
          queue := rest
          running := (l.running.filter fun r => r.id ≠ task.id) ++
            [{ id := task.id, title := task.title, createdAt := task.createdAt, seq := l.nextSeq,
               cancelRequested := false }]
          nextSeq := l.nextSeq + 1
          workers := l.workers ++
            [{ seq := l.nextSeq, task := { task with attempts := task.attempts + 1 }
               phase := .claimed, told := false }]
          history := .claimed task.id (task.attempts + 1) :: .wrote task.id .running "" ::
            l.history }
  /-- The loop tells its workers to stop. -/
  | stopAll : Act c E l { l with workers := l.workers.map fun w => { w with told := true } }
  /-- The loop gives its workers up. -/
  | giveUpAll :
      Act c E l
        { l with
          workers := (l.workers.filter fun w => !w.phase.waits).map fun w =>
            { w with aborted := true } }
  /-- A worker reports its start. -/
  | start (w : Worker) (now : Int) (here : w ∈ l.workers) (phase : w.phase = .claimed) :
      Act c E l
        ((l.note [.reported (.started w.task.id w.task.attempts)]).setWorker w.seq fun w =>
          { w with phase := openingPhase c w.task, started := now })
  | advance (w : Worker) (p : Phase) (hs : List Happening) (here : w ∈ l.workers)
      (next : Next c l w p hs) : Act c E l ((l.note hs).setPhase w.seq p)
  /-- An end is stored, and the task leaves the running set. -/
  | finish (w : Worker) (e : Ending) (attempt : Nat) (store : Store) (here : w ∈ l.workers)
      (phase : w.phase = .writing e attempt) (releases : e.releases = true)
      (writes : l.Writes w.task.id e.status e.error store) :
      Act c E l
        (((l.wrote store w.task.id e.status e.error).release w.task.id).setPhase w.seq
          (storedStatusPhase w.task e))
  /-- `pending` is stored, outside the lock. -/
  | handBack (w : Worker) (failure : Failure) (remaining attempt : Nat) (store : Store)
      (here : w ∈ l.workers) (phase : w.phase = .writing (.retry failure remaining) attempt)
      (writes : l.Writes w.task.id .pending "" store) :
      Act c E l
        ((l.wrote store w.task.id .pending "").setPhase w.seq (.requeueing failure remaining))
  /-- A late cancellation is stored, outside the lock. -/
  | lateStore (w : Worker) (attempt : Nat) (store : Store) (here : w ∈ l.workers)
      (phase : w.phase = .writing .lateCancel attempt)
      (writes : l.Writes w.task.id .cancelled "" store) :
      Act c E l ((l.wrote store w.task.id .cancelled "").setPhase w.seq .clearing)
  /-- A worker lets go of its task. -/
  | letGo (w : Worker) (es : List Effect) (here : w ∈ l.workers)
      (phase : w.phase = .leaving ∨ w.phase = .abandoning)
      (reports : w.phase = .leaving ∧ es = [.report (.interrupted w.task.id)] ∨ es = []) :
      Act c E l (((l.release w.task.id).note [.letGo w.task.id]).setPhase w.seq (.effects es))
  /-- A task goes back to the queue. -/
  | requeue (w : Worker) (failure : Failure) (remaining : Nat) (here : w ∈ l.workers)
      (phase : w.phase = .requeueing failure remaining)
      (unasked : l.requested w.task.id = false) :
      Act c E l
        ((((l.release w.task.id).note [.reported (.retryScheduled w.task.id remaining failure)]).enqueue
          { w.task with remaining }).setPhase w.seq (.effects [.wake]))
  /-- A task was cancelled before it could go back to the queue. -/
  | holdBack (w : Worker) (failure : Failure) (remaining : Nat) (here : w ∈ l.workers)
      (phase : w.phase = .requeueing failure remaining)
      (asked : l.requested w.task.id = true) :
      Act c E l
        ({ l.release w.task.id with cancelling := l.cancelling ++ [w.task.id] }.setPhase w.seq
          (.writing .lateCancel 1))
  /-- A late cancellation is no longer outstanding. -/
  | clear (w : Worker) (here : w ∈ l.workers) (phase : w.phase = .clearing) :
      Act c E l
        ({ l with cancelling := l.cancelling.erase w.task.id }.setPhase w.seq
          (.effects [.report (.cancelled w.task.id)]))
  /-- A worker carries out an effect. -/
  | workerEffect (w : Worker) (e : Effect) (es : List Effect) (here : w ∈ l.workers)
      (phase : w.phase = .effects (e :: es)) :
      Act c E l ((l.note e.happenings).setPhase w.seq (.effects es))
  /-- A worker is gone. -/
  | vanish (w : Worker) (here : w ∈ l.workers)
      (ended : w.phase = .effects [] ∨ w.aborted = true ∧ w.phase.waits = true) :
      Act c E l { l with workers := l.workers.filter fun x => x.seq ≠ w.seq }

/-- One act, or nothing. -/
abbrev OneAct (c : Setup) (E : Edits) : Ledger → Ledger → Prop := Relation.ReflGen (Act c E)

/-- Any number of acts, one after the other. -/
abbrev Acts (c : Setup) (E : Edits) : Ledger → Ledger → Prop := Relation.ReflTransGen (Act c E)

/-- Any number of acts that leave the workers alone. -/
abbrev ActsAside (c : Setup) (E : Edits) : Ledger → Ledger → Prop :=
  Relation.ReflTransGen fun l l' => Act c E l l' ∧ l'.workers = l.workers

theorem ActsAside.acts {c : Setup} {E : Edits} {l l' : Ledger} (aside : ActsAside c E l l') :
    Acts c E l l' :=
  Relation.ReflTransGen.mono (fun _ _ => And.left) _ _ aside

/-- What every act keeps, any number of acts keeps. -/
theorem Acts.preserves {c : Setup} {E : Edits} {P : Ledger → Prop}
    (keep : ∀ l l', P l → Act c E l l' → P l') {l l' : Ledger} (acts : Acts c E l l') (h : P l) :
    P l' := by
  induction acts with
  | refl => exact h
  | tail _ act ih => exact keep _ _ ih act

/-! ## What acts share -/

variable {c : Setup} {E : Edits} {l l' : Ledger}

namespace Ledger

theorem Writes.status? {id : String} {status : Status} {error : String} {store : Store}
    (h : l.Writes id status error store) (x : String) :
    store.status? x = if x = id then some status else l.store.status? x := by
  obtain ⟨now, h⟩ := h
  exact Store.status?_updateStatus h x

theorem Writes.keyed {id : String} {status : Status} {error : String} {store : Store}
    (h : l.Writes id status error store) (keyed : l.store.Keyed) : store.Keyed := by
  obtain ⟨now, h⟩ := h
  exact keyed.updateStatus h

theorem Writes.status?_self {id : String} {status : Status} {error : String} {store : Store}
    (h : l.Writes id status error store) : store.status? id = some status := by
  rw [h.status?, if_pos rfl]

theorem Writes.status?_ne {id : String} {status : Status} {error : String} {store : Store}
    (h : l.Writes id status error store) {x : String} (hne : x ≠ id) :
    store.status? x = l.store.status? x := by
  rw [h.status?, if_neg hne]

/-- Only a known task can be written to. -/
theorem Writes.known {id : String} {status : Status} {error : String} {store : Store}
    (h : l.Writes id status error store) : id ∈ l.store.ids := by
  obtain ⟨now, h⟩ := h
  exact (Store.updateStatus_eq_ok h).1

theorem Writes.ids {id : String} {status : Status} {error : String} {store : Store}
    (h : l.Writes id status error store) : store.ids = l.store.ids := by
  obtain ⟨now, h⟩ := h
  exact Store.ids_updateStatus h

theorem runningIds_release (l : Ledger) (id : String) :
    (l.release id).runningIds = l.runningIds.filter fun x => x ≠ id := by
  simp [runningIds, release, List.filter_map, Function.comp_def]

theorem mem_release {x id : String} :
    id ∈ (l.release x).runningIds ↔ id ∈ l.runningIds ∧ id ≠ x := by
  simp [runningIds_release]

theorem mem_ids_append {queue : List Queued} {t : Queued} {id : String} :
    id ∈ (queue ++ [t]).map Queued.id ↔ id ∈ queue.map Queued.id ∨ id = t.id := by
  simp

theorem erase_ids (queue : List Queued) (x : String) :
    (queue.map Queued.id).erase x = (queue.eraseP fun t => t.id = x).map Queued.id := by
  rw [List.erase_eq_eraseP, List.eraseP_map]
  congr 2
  funext t
  simp [Function.comp, eq_comm, Bool.beq_eq_decide_eq]

/-- Marking an entry of the running set leaves the tasks in it as they are. -/
theorem map_id_tell (running : List Running) (id : String) :
    (running.map fun x => if x.id = id then { x with cancelRequested := true } else x).map Running.id =
      running.map Running.id := by
  rw [List.map_map]
  apply List.map_congr_left
  intro x _
  simp only [Function.comp]
  split <;> rfl

theorem mem_setWorker {seq : Nat} {f : Worker → Worker} {v : Worker}
    (hv : v ∈ (l.setWorker seq f).workers) :
    (v ∈ l.workers ∧ v.seq ≠ seq) ∨ ∃ w ∈ l.workers, w.seq = seq ∧ v = f w := by
  obtain ⟨w, hw, rfl⟩ := List.mem_map.mp hv
  by_cases hseq : w.seq = seq
  · exact Or.inr ⟨w, hw, hseq, if_pos hseq⟩
  · simp only [hseq, if_false]
    exact Or.inl ⟨hw, hseq⟩

theorem seqs_map (ws : List Worker) {f : Worker → Worker} (hf : ∀ w, (f w).seq = w.seq) :
    ((ws.map f).map Worker.seq).Sublist (ws.map Worker.seq) := by
  have heq : (ws.map f).map Worker.seq = ws.map Worker.seq := by
    rw [List.map_map]
    exact List.map_congr_left fun w _ => hf w
  rw [heq]

theorem seqs_setWorker (l : Ledger) (seq : Nat) {f : Worker → Worker} (hf : ∀ w, (f w).seq = w.seq) :
    ((l.setWorker seq f).workers.map Worker.seq).Sublist (l.workers.map Worker.seq) := by
  apply seqs_map
  intro w
  split
  · exact hf w
  · rfl

end Ledger

theorem Phase.holds_writing {e : Ending} (releases : e.releases = true) (attempt : Nat) :
    (Phase.writing e attempt).holds = true := by
  cases e <;> first | rfl | cases releases

/-- A status that is stored together with the release of the task is an end. -/
theorem Ending.isTerminal_of_releases {e : Ending} (releases : e.releases = true) :
    e.status.isTerminal = true := by
  cases e <;> first | rfl | cases releases

/-! ## The phases that follow -/

theorem openingPhase_cases (c : Setup) (task : Queued) :
    (∃ failure, failure.kind = .invalidPayload ∧ openingPhase c task = .ended (.error failure)) ∨
      ∃ t, openingPhase c task = .opening t := by
  unfold openingPhase
  split
  · exact Or.inl ⟨_, rfl, rfl⟩
  · split
    · rename_i failure hdecode
      refine Or.inl ⟨failure, ?_, rfl⟩
      unfold Transfer.decode at hdecode
      cases hread : Transfer.read task.payload with
      | ok t => rw [hread] at hdecode; cases hdecode
      | error flaw => rw [hread] at hdecode; cases hdecode; rfl
    · exact Or.inr ⟨_, rfl⟩

/-- A worker that was told to stop does not let the result of its storage pass. -/
theorem storedPhase_cases (handler : Option Handler) (told : Bool) (t : Transfer)
    (result : Except Failure Nat) :
    storedPhase handler told t result = .rollingBack t ∨
      storedPhase handler told t result = .ended (.error Failure.cancelled) ∨
        told = false ∧ storedPhase handler told t result = .ended result := by
  unfold storedPhase
  simp only
  generalize hstop : (told || _) = stop
  cases stop with
  | false => exact Or.inr (Or.inr ⟨(Bool.or_eq_false_iff.mp hstop).1, rfl⟩)
  | true =>
    simp only [if_true]
    split
    · exact Or.inl rfl
    · exact Or.inr (Or.inl rfl)

/-- How a worker takes the result of its attempt. -/
theorem endedPhase_cases (told : Bool) (remaining millis : Nat) (result : Except Failure Nat) :
    endedPhase told remaining millis result = .stopped ∨
      (∃ bytes, told = false ∧ result = .ok bytes ∧
        endedPhase told remaining millis result = .writing (.completed bytes millis) 1) ∨
      ∃ failure, result = .error failure ∧ failure.isCancelled = false ∧
        ((∃ left, Retry.decide failure remaining = .retry left ∧
            endedPhase told remaining millis result = .writing (.retry failure left) 1) ∨
          Retry.decide failure remaining = .fail ∧
            endedPhase told remaining millis result = .writing (.failed failure) 1) := by
  unfold endedPhase
  cases result with
  | ok bytes =>
    cases told with
    | true => exact Or.inl rfl
    | false => exact Or.inr (Or.inl ⟨bytes, rfl, rfl, rfl⟩)
  | error failure =>
    simp only
    by_cases hstop : failure.isCancelled = true
    · exact Or.inl (if_pos hstop)
    · have hgo : failure.isCancelled = false := by simpa using hstop
      refine Or.inr (Or.inr ⟨failure, rfl, hgo, ?_⟩)
      rw [if_neg hstop]
      cases hdecide : Retry.decide failure remaining with
      | retry left => exact Or.inl ⟨left, rfl, rfl⟩
      | fail => exact Or.inr ⟨rfl, rfl⟩

/-- A task is neither taken up nor let go of by going on. -/
theorem Next.holds {w : Worker} {p : Phase} {hs : List Happening} (next : Next c l w p hs) :
    p.holds = w.phase.holds := by
  cases next with
  | stop t phase told => rcases phase with phase | phase <;> rw [phase] <;> rfl
  | judge t result phase =>
    rcases storedPhase_cases (c.kinds.get? w.task.kind) w.told t result with h | h | ⟨-, h⟩ <;>
      rw [h, phase] <;> rfl
  | settle result millis phase =>
    rcases endedPhase_cases w.told w.task.remaining millis result with
      h | ⟨bytes, -, -, h⟩ | ⟨failure, -, -, ⟨left, -, h⟩ | ⟨-, h⟩⟩ <;> rw [h, phase] <;> rfl
  | refused e attempt phase => rw [phase]; cases e <;> rfl
  | givenUp e attempt phase => rw [phase]; cases e <;> rfl
  | again e attempt phase => rw [phase]; cases e <;> rfl
  | interrupted phase => rw [phase]; rfl
  | cancelled phase => rw [phase]; rfl
  | fetch t phase | fetched t phase | unfetched t failure phase | stored t result phase
  | rolledBack t phase =>
    rw [phase]; rfl

theorem Phase.holds_of_requeues {p : Phase} (h : p.requeues = true) : p.holds = true := by
  cases p <;> first | rfl | cases h

/-- About to let go of its task, a worker still holds it. -/
theorem Phase.holds_of_leaves {p : Phase} (h : p = .leaving ∨ p = .abandoning) :
    p.holds = true ∧ p.requeues = false := by
  rcases h with rfl | rfl <;> exact ⟨rfl, rfl⟩

theorem Phase.requeues_of_waits {p : Phase} (h : p.waits = true) : p.requeues = false := by
  cases p <;> first | rfl | cases h

/-- What concerns the store is never done by going on. -/
theorem Next.quiet {w : Worker} {p : Phase} {hs : List Happening} (next : Next c l w p hs) :
    w.phase.requeues = false ∧ p.requeues = false ∧ p ≠ .clearing ∧
      (p.cancelsLate = true → w.phase.cancelsLate = true) := by
  cases next with
  | stop t phase told =>
    rcases phase with phase | phase <;>
      exact ⟨by rw [phase]; rfl, rfl, by simp, fun no => by cases no⟩
  | judge t result phase =>
    rcases storedPhase_cases (c.kinds.get? w.task.kind) w.told t result with h | h | ⟨-, h⟩ <;>
      rw [h] <;> exact ⟨by rw [phase]; rfl, rfl, by simp, fun no => by cases no⟩
  | settle result millis phase =>
    rcases endedPhase_cases w.told w.task.remaining millis result with
      h | ⟨bytes, -, -, h⟩ | ⟨failure, -, -, ⟨left, -, h⟩ | ⟨-, h⟩⟩ <;>
      rw [h] <;> exact ⟨by rw [phase]; rfl, rfl, by simp, fun no => by cases no⟩
  | refused e attempt phase =>
    refine ⟨by rw [phase]; rfl, rfl, by simp, ?_⟩
    rw [phase]
    cases e <;> exact id
  | givenUp e attempt phase =>
    refine ⟨by rw [phase]; rfl, by cases e <;> rfl, by cases e <;> simp [givenUpPhase], ?_⟩
    cases e <;> exact fun no => by cases no
  | again e attempt phase =>
    refine ⟨by rw [phase]; rfl, rfl, by simp, ?_⟩
    rw [phase]
    cases e <;> exact id
  | interrupted phase => exact ⟨by rw [phase]; rfl, rfl, by simp, fun no => by cases no⟩
  | cancelled phase => exact ⟨by rw [phase]; rfl, rfl, by simp, fun no => by cases no⟩
  | fetch t phase | fetched t phase | unfetched t failure phase | stored t result phase
  | rolledBack t phase => exact ⟨by rw [phase]; rfl, rfl, by simp, fun no => by cases no⟩

/-- With an outcome to report, a worker has no other way to go on. -/
theorem Next.phase_ne_effects {w : Worker} {p : Phase} {hs : List Happening} (next : Next c l w p hs)
    (es : List Effect) : w.phase ≠ .effects es := by
  intro reports
  cases next with
  | stop t phase told => rcases phase with phase | phase <;> rw [phase] at reports <;> cases reports
  | fetch t phase | fetched t phase | unfetched t failure phase | stored t result phase
  | judge t result phase | rolledBack t phase | settle result millis phase | interrupted phase
  | cancelled phase | refused e attempt phase | givenUp e attempt phase | again e attempt phase =>
    rw [phase] at reports
    cases reports

/-- On its own a worker comes to no outcome, unless it has none. -/
theorem Next.outcome_nil {w : Worker} {es : List Effect} {hs : List Happening}
    (next : Next c l w (.effects es) hs) : es = [] := by
  generalize hp : Phase.effects es = p at next
  cases next with
  | judge t result phase =>
    rcases storedPhase_cases (c.kinds.get? w.task.kind) w.told t result with h | h | ⟨-, h⟩ <;>
      exact absurd (hp.trans h) nofun
  | settle result millis phase =>
    rcases endedPhase_cases w.told w.task.remaining millis result with
      h | ⟨bytes, -, -, h⟩ | ⟨failure, -, -, ⟨left, -, h⟩ | ⟨-, h⟩⟩ <;> exact absurd (hp.trans h) nofun
  | givenUp e attempt phase =>
    cases e with
    | lateCancel => exact Phase.effects.inj hp
    | _ => cases hp
  | _ => cases hp

/-! ## What is noted -/

/-- Is this something that neither the queue nor the store knows of? -/
def Happening.outward : Happening → Bool
  | .reported _ | .announced _ | .fetched .. | .put .. | .rolledBack .. => true
  | _ => false

/-- Why something is noted by an act from `l` to `l'`. -/
inductive Noted (l l' : Ledger) : Happening → Prop
  | outward (x : Happening) (h : x.outward = true) : Noted l l' x
  | enqueued (id : String) (after : id ∈ l'.queuedIds) : Noted l l' (.enqueued id)
  | claimed (id : String) (attempt : Nat) (before : id ∈ l.queuedIds)
      (head : l.queuedIds.head? = some id) (known : id ∈ l.store.ids) : Noted l l' (.claimed id attempt)
  | withdrawn (id : String) : Noted l l' (.withdrawn id)
  | accepted (id : String) : Noted l l' (.accepted id)
  | released (id : String) : Noted l l' (.released id)
  | letGo (w : Worker) (here : w ∈ l.workers) (phase : w.phase = .leaving ∨ w.phase = .abandoning)
      (places : l'.tracked = (l.release w.task.id).tracked) (store : l'.store = l.store) :
      Noted l l' (.letGo w.task.id)
  | ended (w : Worker) (e : Ending) (attempt : Nat) (here : w ∈ l.workers)
      (phase : w.phase = .writing e attempt) (known : w.task.id ∈ l.store.ids)
      (after : l'.store.status? w.task.id = some e.status)
      (writes : l.Writes w.task.id e.status e.error l'.store) :
      Noted l l' (.wrote w.task.id e.status e.error)
  | stored (id : String) (status : Status)
      (status_cases : status = .pending ∨ status = .running ∨ status = .cancelled)
      (known : status = .pending ∨ id ∈ l.store.ids) (after : l'.store.status? id = some status)
      (writes : status = .pending ∨ l.Writes id status "" l'.store) :
      Noted l l' (.wrote id status "")

theorem Effect.outward_happenings (e : Effect) : ∀ x ∈ e.happenings, x.outward = true := by
  cases e <;> simp [happenings, Happening.outward]

theorem Next.outward {w : Worker} {p : Phase} {hs : List Happening} (next : Next c l w p hs) :
    ∀ x ∈ hs, x.outward = true := by
  cases next <;> simp [Happening.outward]

/-- The history only grows, and by nothing but what the act is about. -/
theorem Act.noted (act : Act c E l l') :
    ∃ hs, l'.history = hs ++ l.history ∧ ∀ x ∈ hs, Noted l l' x := by
  have one {x : Happening} (h : Noted l l' x) : ∀ y ∈ [x], Noted l l' y := by
    simpa using h
  have two {x y : Happening} (hx : Noted l l' x) (hy : Noted l l' y) :
      ∀ z ∈ [x, y], Noted l l' z := by
    simpa using ⟨hx, hy⟩
  have three {x y z : Happening} (hx : Noted l l' x) (hy : Noted l l' y) (hz : Noted l l' z) :
      ∀ u ∈ [x, y, z], Noted l l' u := by
    simpa using ⟨hx, hy, hz⟩
  cases act with
  | submit r store new pending put =>
    refine ⟨[_, _, _], rfl, three (.outward _ rfl) (.enqueued _ ?_) (.stored _ _ (.inl rfl) (.inl rfl) ?_ (.inl rfl))⟩
    · exact List.mem_map_of_mem (List.mem_append_right _ List.mem_cons_self)
    · exact (Store.status?_put put r.id).trans ((if_pos rfl).trans (congrArg some pending))
  | withdraw id store queued writes =>
    exact ⟨[_, _, _], rfl,
      three (.accepted _) (.withdrawn _)
        (.stored _ _ (.inr (.inr rfl)) (.inr writes.known) writes.status?_self (.inr writes))⟩
  | tell r found first => exact ⟨[_], rfl, one (.accepted _)⟩
  | retell r found asked => exact ⟨[_], rfl, one (.accepted _)⟩
  | storeCancel id store outstanding writes =>
    exact ⟨[_], rfl, one (.stored _ _ (.inr (.inr rfl)) (.inr writes.known) writes.status?_self (.inr writes))⟩
  | takePending r notHeld notRunning notQueued pending listed =>
    refine ⟨[_], rfl, one (.enqueued _ ?_)⟩
    exact List.mem_map_of_mem (List.mem_append_right _ List.mem_cons_self)
  | takeRunning r store notHeld notRunning notQueued running listed writes =>
    refine ⟨[_, _], rfl, two (.enqueued _ ?_) (.stored _ _ (.inl rfl) (.inl rfl) writes.status?_self (.inl rfl))⟩
    exact List.mem_map_of_mem (List.mem_append_right _ List.mem_cons_self)
  | claim task rest store head writes =>
    refine ⟨[_, _], rfl,
      two (.claimed _ _ ?_ ?_ writes.known)
        (.stored _ _ (.inr (.inl rfl)) (.inr writes.known) writes.status?_self (.inr writes))⟩ <;>
      simp [Ledger.queuedIds, head]
  | callEffect call e => exact ⟨e.happenings, rfl, fun x hx => .outward x (e.outward_happenings x hx)⟩
  | workerEffect w e => exact ⟨e.happenings, rfl, fun x hx => .outward x (e.outward_happenings x hx)⟩
  | start w now here phase => exact ⟨[_], rfl, one (.outward _ rfl)⟩
  | advance w p hs here next => exact ⟨hs, rfl, fun x hx => .outward x (next.outward x hx)⟩
  | finish w e attempt store here phase releases writes =>
    exact ⟨[_, _], rfl, two (.released _) (.ended w e attempt here phase writes.known writes.status?_self writes)⟩
  | handBack w failure remaining attempt store here phase writes =>
    exact ⟨[_], rfl,
      one (.ended w (.retry failure remaining) attempt here phase writes.known writes.status?_self writes)⟩
  | lateStore w attempt store here phase writes =>
    exact ⟨[_], rfl, one (.ended w .lateCancel attempt here phase writes.known writes.status?_self writes)⟩
  | letGo w es here phase => exact ⟨[_, _], rfl, two (.letGo w here phase rfl rfl) (.released _)⟩
  | requeue w failure remaining here phase unasked =>
    refine ⟨[_, _, _], rfl, three (.enqueued _ ?_) (.outward _ rfl) (.released _)⟩
    exact List.mem_map.mpr ⟨_, List.mem_append_right _ List.mem_cons_self, rfl⟩
  | holdBack w failure remaining here phase asked => exact ⟨[_], rfl, one (.released _)⟩
  | _ => exact ⟨[], rfl, by simp⟩

theorem Act.history (act : Act c E l l') : ∃ hs, l'.history = hs ++ l.history := by
  obtain ⟨hs, h, -⟩ := act.noted
  exact ⟨hs, h⟩

theorem Acts.history (acts : Acts c E l l') : ∃ hs, l'.history = hs ++ l.history := by
  induction acts with
  | refl => exact ⟨[], rfl⟩
  | tail _ act ih =>
    obtain ⟨hs, before⟩ := ih
    obtain ⟨new, after⟩ := act.history
    exact ⟨new ++ hs, by rw [after, before, List.append_assoc]⟩

/-- The store takes a status, and this is noted, or it is changed as somebody outside has asked for. -/
theorem Act.store_cases (act : Act c E l l') :
    l'.store = l.store ∨ E l l'.store ∨
      ∃ id status error, l.Writes id status error l'.store ∧
        ∃ hs, l'.history = hs ++ l.history ∧ .wrote id status error ∈ hs := by
  have wrote {id : String} {status : Status} {error : String} (hs : List Happening)
      (writes : l.Writes id status error l'.store) (history : l'.history = hs ++ l.history)
      (noted : .wrote id status error ∈ hs) :
      l'.store = l.store ∨ E l l'.store ∨
        ∃ id status error, l.Writes id status error l'.store ∧
          ∃ hs, l'.history = hs ++ l.history ∧ .wrote id status error ∈ hs :=
    Or.inr (Or.inr ⟨id, status, error, writes, hs, history, noted⟩)
  cases act with
  | edit store allowed => exact Or.inr (Or.inl allowed)
  | submit r store new pending put allowed => exact Or.inr (Or.inl allowed)
  | withdraw id store queued writes => exact wrote [_, _, _] writes rfl (by simp)
  | storeCancel id store outstanding writes => exact wrote [_] writes rfl (by simp)
  | takeRunning r store _ _ _ _ _ writes =>
    exact wrote [.enqueued r.id, .wrote r.id .pending ""] writes rfl (by simp)
  | claim task rest store head writes => exact wrote [_, _] writes rfl (by simp)
  | finish w e attempt store here phase releases writes => exact wrote [_, _] writes rfl (by simp)
  | handBack w failure remaining attempt store here phase writes => exact wrote [_] writes rfl (by simp)
  | lateStore w attempt store here phase writes => exact wrote [_] writes rfl (by simp)
  | _ => exact Or.inl rfl

/-- Workers go, and a new one has the next number. -/
theorem Act.seqs (act : Act c E l l') :
    ((l'.workers.map Worker.seq).Sublist (l.workers.map Worker.seq) ∧ l'.nextSeq = l.nextSeq) ∨
      (l'.workers.map Worker.seq = l.workers.map Worker.seq ++ [l.nextSeq] ∧
        l'.nextSeq = l.nextSeq + 1) := by
  cases act with
  | tell r found first => exact Or.inl ⟨Ledger.seqs_map _ fun w => by split <;> rfl, rfl⟩
  | stopAll => exact Or.inl ⟨Ledger.seqs_map _ fun _ => rfl, rfl⟩
  | giveUpAll =>
    have hsub := List.filter_sublist (p := fun w => !w.phase.waits) (l := l.workers)
    refine Or.inl ⟨List.Sublist.trans ?_ (hsub.map Worker.seq), rfl⟩
    exact Ledger.seqs_map _ fun _ => rfl
  | vanish w => exact Or.inl ⟨List.filter_sublist.map Worker.seq, rfl⟩
  | claim task rest store head =>
    right
    exact ⟨List.map_append, rfl⟩
  | start | advance | handBack | lateStore | clear | workerEffect | finish | letGo | requeue |
      holdBack =>
    exact Or.inl ⟨Ledger.seqs_setWorker _ _ fun _ => rfl, rfl⟩
  | _ => exact Or.inl ⟨List.Sublist.refl _, rfl⟩

/-- Entries of the running set go, and that of a claim comes with its number. -/
theorem Act.entries (act : Act c E l l') :
    ((l'.running.map Running.seq).Sublist (l.running.map Running.seq) ∧ l'.nextSeq = l.nextSeq) ∨
      ∃ kept, kept.Sublist (l.running.map Running.seq) ∧
        l'.running.map Running.seq = kept ++ [l.nextSeq] ∧ l'.nextSeq = l.nextSeq + 1 := by
  cases act with
  | tell r found first =>
    left
    refine ⟨?_, rfl⟩
    have same : (l.running.map fun x => if x.id = r.id then { x with cancelRequested := true } else x).map
        Running.seq = l.running.map Running.seq := by
      rw [List.map_map]
      apply List.map_congr_left
      intro x _
      simp only [Function.comp]
      split <;> rfl
    exact same ▸ List.Sublist.refl _
  | claim task rest store head =>
    right
    exact ⟨_, List.filter_sublist.map Running.seq, List.map_append, rfl⟩
  | finish | letGo | requeue | holdBack =>
    exact Or.inl ⟨List.filter_sublist.map Running.seq, rfl⟩
  | _ => exact Or.inl ⟨List.Sublist.refl _, rfl⟩

end Courier.Scheduler
