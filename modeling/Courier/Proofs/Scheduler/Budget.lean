/-
# Courier.Proofs.Scheduler.Budget -- how often a task is tried

A task is with the scheduler from its entry into the queue until it is neither queued nor running. For
that stay it has a budget of retries, which travels with it: from the queue into the hands of a worker, and
from there, one less, back into the queue. `State.chronicle` lists what becomes of the attempts at one task
in a run: each claim, the result that the attempt comes to, and the retry or the final failure. What a
chronicle looks like, over every run and however the task's way is mixed with that of others, with refused
writes and with cancellations, is said by `rounds` and `Last`: whole rounds of a claim, a retryable failure
and a retry that leaves one less, and an end that may be cut off anywhere.

`Ledger.Budget` is the invariant behind that. It ties the counters of the task to the rounds behind it.
-/
import Courier.Proofs.Scheduler.Cancellation
import Courier.Proofs.Scheduler.Gathering
import Courier.Proofs.Scheduler.Outcomes
import Courier.Proofs.Scheduler.Slots

namespace Courier.Scheduler

variable {c : Setup} {E : Edits} {l l' : Ledger} {id : String}

/-! ## Chronicles -/

/-- What becomes of the attempts at a task. -/
inductive Milestone where
  | claimed (attempt : Nat)
  /-- The attempt has come to a result. -/
  | ended (attempt : Nat) (result : Except Failure Nat)
  | retried (remaining : Nat) (failure : Failure)
  /-- The task is stored as failed, with this text. -/
  | failed (error : String)
deriving DecidableEq

/-- What is noted of the attempts at a task. -/
def Happening.milestone? (id : String) : Happening → Option Milestone
  | .claimed x attempt => if x = id then some (.claimed attempt) else none
  | .reported (.retryScheduled x remaining failure) =>
    if x = id then some (.retried remaining failure) else none
  | .wrote x .failed error => if x = id then some (.failed error) else none
  | _ => none

/-- The result that the attempt has come to, in the phase in which the worker has yet to take it. -/
def Phase.result? : Phase → Option (Except Failure Nat)
  | .ended result => some result
  | _ => none

/-- The result that attempt `k` comes to when its worker goes from one phase to another. -/
def Phase.reaches (k : Nat) (p q : Phase) : List Milestone :=
  if p.result?.isNone then (q.result?.map (.ended k)).toList else []

namespace Ledger

/-- The result that the attempt of a worker has come to since `l`. -/
def outcome? (l : Ledger) (v : Worker) : Option Milestone :=
  if ∀ w ∈ l.workers, w.seq = v.seq → w.phase.result?.isNone then
    v.phase.result?.map (.ended v.task.attempts)
  else none

/-- The results that attempts at the task have come to from `l` to `l'`. -/
def outcomes (l : Ledger) (id : String) (l' : Ledger) : List Milestone :=
  l'.workers.filterMap fun v => if v.task.id = id then l.outcome? v else none

/-- Is the task queued or running? -/
def Has (l : Ledger) (id : String) : Prop := id ∈ l.queuedIds ∨ id ∈ l.runningIds

instance (l : Ledger) (id : String) : Decidable (l.Has id) := inferInstanceAs (Decidable (_ ∨ _))

end Ledger

namespace State

/-- What has become of attempts at the task from `s` to `t`. -/
def milestones (s : State) (id : String) (t : State) : List Milestone :=
  s.ledger.outcomes id t.ledger ++ (s.since t).reverse.filterMap (Happening.milestone? id)

/-- What becomes of the attempts at a task in a run, in order. -/
def chronicle (c : Setup) (id : String) : State → List Move → List Milestone
  | _, [] => []
  | s, m :: ms => s.milestones id (s.step c m) ++ (s.step c m).chronicle c id ms

end State

/-- Attempts that have failed, one after the other: with a budget of `R` retries the one numbered `k + 1` is
the first of them. -/
def rounds (R : Nat) : Nat → List Failure → List Milestone
  | _, [] => []
  | k, f :: fs =>
    .claimed (k + 1) :: .ended (k + 1) (.error f) :: .retried (R - (k + 1)) f :: rounds R (k + 1) fs

theorem rounds_concat (R k : Nat) (fs : List Failure) (f : Failure) :
    rounds R k (fs ++ [f]) = rounds R k fs ++ [.claimed (k + fs.length + 1),
      .ended (k + fs.length + 1) (.error f), .retried (R - (k + fs.length + 1)) f] := by
  induction fs generalizing k with
  | nil => rfl
  | cons x fs ih =>
    have shift : k + (x :: fs).length = k + 1 + fs.length := by
      rw [List.length_cons]
      omega
    rw [List.cons_append, rounds, ih (k + 1), rounds, shift]
    rfl

/-- What follows on `n` failed attempts that were retried. -/
inductive Last (R n : Nat) : List Milestone → Prop
  | waiting : Last R n []
  | working : Last R n [.claimed (n + 1)]
  | ended (result : Except Failure Nat) : Last R n [.claimed (n + 1), .ended (n + 1) result]
  | failed (f : Failure) (final : f.isRetryable = false ∨ n = R) :
      Last R n [.claimed (n + 1), .ended (n + 1) (.error f), .failed (f.kind.name ++ ": " ++ f.message)]

/-! ## Reports of retries -/

def Effect.schedules : Effect → Bool
  | .report (.retryScheduled ..) => true
  | _ => false

/-- A retry is reported at once. No caller has the report of one outstanding, -/
theorem Effect.not_schedules_of_ofCaller {e : Effect} (may : e.ofCaller = true) : e.schedules = false := by
  cases e with
  | report e => cases e <;> first | rfl | cases may
  | _ => rfl

/-- and no worker has. -/
theorem Worker.Outcome.not_schedules {w : Worker} {e : Effect} {es : List Effect}
    (outcome : w.Outcome (e :: es)) : e.schedules = false := by
  cases outcome <;> rfl

namespace Ledger

/-! ## What an act notes of the attempts -/

/-- What an act from `l` to `l'` notes of the attempts at the task, and why. -/
inductive Marks (c : Setup) (id : String) (l l' : Ledger) : List Milestone → Prop
  | none (queue : ∀ t ∈ l'.queue, t.id = id → t ∈ l.queue ∨ ¬l.Has id ∧ ∃ r, t = Queued.ofRecord c r) :
      Marks c id l l' []
  | claimed (t : Queued) (rest : List Queued) (head : l.queue = t :: rest) (task : t.id = id)
      (queue : l'.queue = rest)
      (workers : ∀ v ∈ l'.workers, v ∈ l.workers ∨
        v.task = { t with attempts := t.attempts + 1 } ∧ v.phase = .claimed) :
      Marks c id l l' [.claimed (t.attempts + 1)]
  | retried (w : Worker) (f : Failure) (left : Nat) (here : w ∈ l.workers) (task : w.task.id = id)
      (phase : w.phase = .requeueing f left)
      (queue : l'.queue = l.queue ++ [{ w.task with remaining := left }]) :
      Marks c id l l' [.retried left f]
  | failed (w : Worker) (f : Failure) (attempt : Nat) (here : w ∈ l.workers) (task : w.task.id = id)
      (phase : w.phase = .writing (.failed f) attempt) (queue : l'.queue = l.queue)
      (released : id ∉ l'.runningIds) (stored : l.Writes id .failed f.text l'.store) :
      Marks c id l l' [.failed f.text]

theorem milestones_of_outward {hs : List Happening} (outward : ∀ x ∈ hs, x.outward = true)
    (quiet : ∀ x ∈ hs, ∀ id left f, x ≠ .reported (.retryScheduled id left f)) :
    hs.reverse.filterMap (Happening.milestone? id) = [] := by
  rw [List.filterMap_eq_nil_iff]
  intro x hx
  have hx := List.mem_reverse.mp hx
  have out := outward x hx
  cases x with
  | reported e =>
    cases e with
    | retryScheduled x left f => exact absurd rfl (quiet _ hx x left f)
    | _ => rfl
  | _ => first | rfl | cases out

/-- An effect that is no report of a retry is no milestone. -/
theorem milestones_of_effect {e : Effect} (quiet : e.schedules = false) :
    e.happenings.reverse.filterMap (Happening.milestone? id) = [] := by
  refine milestones_of_outward e.outward_happenings ?_
  rintro x hx id left f rfl
  cases e with
  | report e =>
    cases List.mem_singleton.mp hx
    cases quiet
  | announce n => cases List.mem_singleton.mp hx
  | wake => cases hx

theorem milestones_of_next {w : Worker} {p : Phase} {hs : List Happening} (next : Next c l w p hs) :
    hs.reverse.filterMap (Happening.milestone? id) = [] := by
  refine milestones_of_outward next.outward ?_
  rintro x hx id left f rfl
  cases next <;> simp at hx

/-- Most acts leave the queue as it is, and note nothing of attempts. -/
theorem Marks.quiet {hs : List Happening} (queue : l'.queue = l.queue)
    (nothing : hs.reverse.filterMap (Happening.milestone? id) = []) :
    Marks c id l l' (hs.reverse.filterMap (Happening.milestone? id)) := by
  rw [nothing]
  exact .none fun t ht _ => Or.inl (queue ▸ ht)

/-- A task enters the queue that was neither queued nor running. -/
theorem Marks.enters {hs : List Happening} (r : Record) (unknown : ¬l.Has r.id)
    (queue : l'.queue = l.queue ++ [Queued.ofRecord c r])
    (nothing : hs.reverse.filterMap (Happening.milestone? id) = []) :
    Marks c id l l' (hs.reverse.filterMap (Happening.milestone? id)) := by
  rw [nothing]
  refine .none fun t ht task => ?_
  rw [queue] at ht
  rcases List.mem_append.mp ht with ht | ht
  · exact Or.inl ht
  · rw [List.mem_singleton.mp ht] at task ⊢
    exact Or.inr ⟨task ▸ unknown, r, rfl⟩

theorem Marks.of_claim (t : Queued) (rest : List Queued) (head : l.queue = t :: rest) (queue : l'.queue = rest)
    (workers : ∀ v ∈ l'.workers, v ∈ l.workers ∨
      v.task = { t with attempts := t.attempts + 1 } ∧ v.phase = .claimed) :
    Marks c id l l' (([.claimed t.id (t.attempts + 1), .wrote t.id .running ""] : List Happening).reverse.filterMap
      (Happening.milestone? id)) := by
  have noted : ([.claimed t.id (t.attempts + 1), .wrote t.id .running ""] :
      List Happening).reverse.filterMap (Happening.milestone? id) =
      if t.id = id then [.claimed (t.attempts + 1)] else [] := by
    by_cases task : t.id = id <;> simp [Happening.milestone?, List.filterMap_cons, task]
  rw [noted]
  split
  case isTrue task => exact .claimed t rest head task queue workers
  case isFalse => exact .none fun x hx _ => Or.inl (head ▸ List.mem_cons_of_mem t (queue ▸ hx))

theorem Marks.of_requeue {w : Worker} {f : Failure} {left : Nat} (here : w ∈ l.workers)
    (phase : w.phase = .requeueing f left) (queue : l'.queue = l.queue ++ [{ w.task with remaining := left }]) :
    Marks c id l l' (([.enqueued w.task.id, .reported (.retryScheduled w.task.id left f), .released w.task.id] :
      List Happening).reverse.filterMap (Happening.milestone? id)) := by
  have noted : ([.enqueued w.task.id, .reported (.retryScheduled w.task.id left f), .released w.task.id] :
      List Happening).reverse.filterMap (Happening.milestone? id) =
      if w.task.id = id then [.retried left f] else [] := by
    by_cases task : w.task.id = id <;> simp [Happening.milestone?, List.filterMap_cons, task]
  rw [noted]
  split
  case isTrue task => exact .retried w f left here task phase queue
  case isFalse task =>
    refine .none fun t ht htask => ?_
    rw [queue] at ht
    rcases List.mem_append.mp ht with ht | ht
    · exact Or.inl ht
    · rw [List.mem_singleton.mp ht] at htask
      exact absurd htask task

/-- Of the ends only a failure is a milestone. -/
theorem Marks.of_finish {w : Worker} {e : Ending} {attempt : Nat} (here : w ∈ l.workers)
    (phase : w.phase = .writing e attempt) (releases : e.releases = true) (queue : l'.queue = l.queue)
    (released : w.task.id ∉ l'.runningIds) (stored : l.Writes w.task.id e.status e.error l'.store) :
    Marks c id l l' (([.released w.task.id, .wrote w.task.id e.status e.error] : List Happening).reverse.filterMap
      (Happening.milestone? id)) := by
  cases e with
  | failed f =>
    have noted : ([.released w.task.id, .wrote w.task.id .failed f.text] :
        List Happening).reverse.filterMap (Happening.milestone? id) =
        if w.task.id = id then [.failed f.text] else [] := by
      by_cases task : w.task.id = id <;> simp [Happening.milestone?, List.filterMap_cons, task]
    show Marks c id l l' (([.released w.task.id, .wrote w.task.id .failed f.text] :
      List Happening).reverse.filterMap (Happening.milestone? id))
    rw [noted]
    split
    case isTrue task => exact .failed w f attempt here task phase queue (task ▸ released) (task ▸ stored)
    case isFalse => exact .none fun t ht _ => Or.inl (queue ▸ ht)
  | completed | cancelled => exact .quiet queue rfl
  | retry | lateCancel => cases releases

theorem Owned.marks (h : l.Owned) (accountable : l.Accountable) (act : Act c E l l') (id : String) :
    ∃ hs, l'.history = hs ++ l.history ∧
      Marks c id l l' (hs.reverse.filterMap (Happening.milestone? id)) := by
  cases act with
  | claim t rest store head =>
    refine ⟨[_, _], rfl, .of_claim t rest head rfl fun v hv => ?_⟩
    rcases List.mem_append.mp hv with hv | hv
    · exact Or.inl hv
    · rw [List.mem_singleton.mp hv]
      exact Or.inr ⟨rfl, rfl⟩
  | requeue w f left here phase => exact ⟨[_, _, _], rfl, .of_requeue here phase rfl⟩
  | finish w e attempt store here phase releases writes =>
    exact ⟨[_, _], rfl, .of_finish here phase releases rfl (fun running => (mem_release.mp running).2 rfl) writes⟩
  | submit r store new =>
    refine ⟨[_, _, _], rfl, .enters r ?_ rfl rfl⟩
    intro known
    exact new.2 (h.tracked_enqueued r.id (mem_tracked.mpr (known.imp_right Or.inl)))
  | takePending r notHeld notRunning notQueued =>
    exact ⟨[_], rfl, .enters r (fun known => known.elim notQueued notRunning) rfl rfl⟩
  | takeRunning r store notHeld notRunning notQueued =>
    exact ⟨[_, _], rfl, .enters r (fun known => known.elim notQueued notRunning) rfl rfl⟩
  | withdraw x store =>
    refine ⟨[_, _, _], rfl, .none fun t ht _ => Or.inl ?_⟩
    exact (List.eraseP_sublist).subset ht
  | tell r | retell r | storeCancel x | lateStore w | holdBack w => exact ⟨[_], rfl, .quiet rfl rfl⟩
  | letGo w => exact ⟨[_, _], rfl, .quiet rfl rfl⟩
  | handBack w => exact ⟨[_], rfl, .quiet rfl rfl⟩
  | start w now => exact ⟨[_], rfl, .quiet rfl rfl⟩
  | advance w p hs here next => exact ⟨hs, rfl, .quiet rfl (milestones_of_next next)⟩
  | callEffect call e es next =>
    have may := accountable.calls _ (List.mem_of_getElem? next) e List.mem_cons_self
    exact ⟨e.happenings, rfl, .quiet rfl (milestones_of_effect (Effect.not_schedules_of_ofCaller may))⟩
  | workerEffect w e es here phase =>
    have outcome := accountable.outcomes w here _ phase
    exact ⟨e.happenings, rfl, .quiet rfl (milestones_of_effect outcome.not_schedules)⟩
  | _ => exact ⟨[], rfl, .quiet rfl rfl⟩

/-! ## Results -/

theorem holds_of_result? {p : Phase} (h : p.result? ≠ none) : p.holds = true := by
  cases p <;> first | rfl | exact absurd rfl h

/-- Only the worker that holds the task can have come to a result. -/
theorem Owned.outcomes_of_holder (h' : l'.Owned) {v : Worker} (hv : v ∈ l'.workers)
    (holds : v.phase.holds = true) (task : v.task.id = id) :
    l.outcomes id l' = (l.outcome? v).toList := by
  have others : ∀ u ∈ l'.workers, u ≠ v → (if u.task.id = id then l.outcome? u else none) = none := by
    intro u hu hne
    split
    · rename_i htask
      unfold outcome?
      split
      · by_contra result
        have uholds : u.phase.holds = true := by
          refine holds_of_result? fun hnone => result ?_
          rw [hnone]
          rfl
        exact hne (h'.holder_eq hu hv uholds holds (htask.trans task.symm))
      · rfl
    · rfl
  obtain ⟨before, after, split⟩ := List.append_of_mem hv
  have nodup : l'.workers.Nodup := List.Nodup.of_map Worker.seq h'.seqs_nodup
  have quiet (ws : List Worker) (sub : ∀ u ∈ ws, u ∈ l'.workers ∧ u ≠ v) :
      ws.filterMap (fun u => if u.task.id = id then l.outcome? u else none) = [] :=
    List.filterMap_eq_nil_iff.mpr fun u hu => others u (sub u hu).1 (sub u hu).2
  rw [split] at nodup
  obtain ⟨-, nodupAfter, apart⟩ := List.nodup_append.mp nodup
  have first := quiet before fun u hu =>
    ⟨split ▸ List.mem_append_left _ hu, apart u hu v List.mem_cons_self⟩
  have last := quiet after fun u hu =>
    ⟨split ▸ List.mem_append_right _ (List.mem_cons_of_mem v hu),
      fun heq => (List.nodup_cons.mp nodupAfter).1 (heq ▸ hu)⟩
  rw [outcomes, split, List.filterMap_append, List.filterMap_cons, first, last, task]
  simp only [if_true, List.nil_append]
  cases l.outcome? v <;> rfl

/-- Does a worker hold the task? -/
def Held (l : Ledger) (id : String) : Prop := ∃ w ∈ l.workers, w.task.id = id ∧ w.phase.holds = true

theorem Owned.running_of_held (h : l.Owned) (held : l.Held id) : id ∈ l.runningIds := by
  obtain ⟨w, here, task, holds⟩ := held
  exact task ▸ h.mem_runningIds here holds

/-- Who holds the task holds it alone, and the task is not queued. -/
theorem Owned.not_held_of_queued (h : l.Owned) (queued : id ∈ l.queuedIds) : ¬l.Held id :=
  fun held => h.queued_disjoint_running queued (h.running_of_held held)

theorem Owned.not_held_of_absent (h : l.Owned) (absent : ¬l.Has id) : ¬l.Held id :=
  fun held => absent (Or.inr (h.running_of_held held))

theorem outcomes_of_not_held (free : ¬l'.Held id) : l.outcomes id l' = [] := by
  refine List.filterMap_eq_nil_iff.mpr fun v hv => ?_
  split
  · rename_i task
    have result : v.phase.result? = Option.none := by
      by_contra result
      exact free ⟨v, hv, task, holds_of_result? result⟩
    unfold outcome?
    rw [result]
    split <;> rfl
  · rfl

/-- Without a change of the workers no attempt comes to a result. -/
theorem outcomes_of_workers (same : l'.workers = l.workers) : l.outcomes id l' = [] := by
  refine List.filterMap_eq_nil_iff.mpr fun v hv => ?_
  split
  · unfold outcome?
    split
    · rename_i quiet
      have hnone := quiet v (same ▸ hv) rfl
      rw [Option.isNone_iff_eq_none.mp hnone]
      rfl
    · rfl
  · rfl

theorem Owned.outcomes_of_heir (h : l.Owned) (h' : l'.Owned) {w v : Worker} (heir : Heir l w v)
    (hv : v ∈ l'.workers) (holds : v.phase.holds = true) (task : v.task.id = id) :
    l.outcomes id l' = w.phase.reaches v.task.attempts v.phase := by
  have only : (∀ u ∈ l.workers, u.seq = v.seq → u.phase.result?.isNone) ↔ w.phase.result?.isNone := by
    constructor
    · exact fun all => all w heir.here heir.seq
    · intro hnone u hu hseq
      rwa [h.worker_eq hu heir.here (hseq.trans heir.seq.symm)]
  rw [h'.outcomes_of_holder hv holds task, Phase.reaches]
  unfold outcome?
  by_cases hnone : w.phase.result?.isNone
  · rw [if_pos hnone, if_pos (only.mpr hnone)]
  · rw [if_neg hnone, if_neg fun all => hnone (only.mp all)]
    rfl

end Ledger

/-! ## The stages of an attempt -/

/-- Is the attempt under way? -/
def Phase.works : Phase → Bool
  | .claimed | .opening _ | .fetching _ | .storing _ | .stored .. | .rollingBack _ => true
  | _ => false

/-- Does the end that a worker has to store suit the result of attempt `k`? -/
def Ending.Suits (R k : Nat) (result : Except Failure Nat) : Ending → Prop
  | .retry f left => result = .error f ∧ f.isRetryable = true ∧ left + k = R
  | .failed f => result = .error f ∧ (f.isRetryable = false ∨ k = R + 1)
  | .completed .. | .cancelled => True
  | .lateCancel => False

/-- Is this a phase of a worker that has taken the result of attempt `k`? -/
def Phase.Suits (R k : Nat) (result : Except Failure Nat) : Phase → Prop
  | .stopped | .leaving | .abandoning => True
  | .writing e _ | .pausing e _ => e.Suits R k result
  | .requeueing f left => Ending.Suits R k result (.retry f left)
  | _ => False

/-- How far attempt `k` has come, and what is known of it by then. -/
inductive Stage (R k : Nat) (p : Phase) (last : List Milestone) : Prop
  | working (phase : p.works = true) (known : last = [.claimed k])
  | ended (result : Except Failure Nat) (phase : p = .ended result)
      (known : last = [.claimed k, .ended k result])
  | judged (result : Except Failure Nat) (phase : p.Suits R k result)
      (known : last = [.claimed k, .ended k result])

theorem Stage.last {R n : Nat} {p : Phase} {last : List Milestone} (stage : Stage R (n + 1) p last) :
    Last R n last := by
  cases stage with
  | working phase known => exact known ▸ .working
  | ended result phase known => exact known ▸ .ended result
  | judged result phase known => exact known ▸ .ended result

theorem decide_eq_fail {f : Failure} {remaining : Nat} (h : Retry.decide f remaining = .fail) :
    f.isRetryable = false ∨ remaining = 0 := by
  unfold Retry.decide at h
  split at h
  · cases h
  · rename_i hnot
    rcases Bool.eq_false_or_eq_true f.isRetryable with retryable | final
    · exact Or.inr (Nat.eq_zero_of_not_pos fun left => hnot ⟨retryable, left⟩)
    · exact Or.inl final

/-- The decision on a result is the one that the budget allows. -/
theorem suits_endedPhase {R n remaining : Nat} (budget : remaining + n = R) (told : Bool) (millis : Nat)
    (result : Except Failure Nat) : (endedPhase told remaining millis result).Suits R (n + 1) result := by
  rcases endedPhase_cases told remaining millis result with
    h | ⟨bytes, -, -, h⟩ | ⟨f, rfl, -, ⟨left, hdecide, h⟩ | ⟨hdecide, h⟩⟩ <;> rw [h]
  · trivial
  · trivial
  · obtain ⟨retryable, hleft⟩ := Retry.decide_eq_retry_iff.mp hdecide
    exact ⟨rfl, retryable, by omega⟩
  · exact ⟨rfl, (decide_eq_fail hdecide).imp_right fun none => by omega⟩

namespace Stage

variable {R k n : Nat} {p q : Phase} {last : List Milestone}

theorem under (stage : Stage R k p last) (works : p.works = true) :
    last = [.claimed k] ∧ p.result? = none := by
  cases stage with
  | working phase known =>
    refine ⟨known, ?_⟩
    cases p <;> first | rfl | cases phase
  | ended result phase known =>
    rw [phase] at works
    cases works
  | judged result phase known => cases p <;> first | exact False.elim phase | cases works

/-- From one phase under way to another. -/
theorem goes (stage : Stage R k p last) (works : p.works = true) (on : q.works = true) :
    Stage R k q (last ++ p.reaches k q) := by
  obtain ⟨known, quiet⟩ := stage.under works
  have still : q.result? = none := by cases q <;> first | rfl | cases on
  refine .working on ?_
  rw [known, Phase.reaches, quiet, still]
  rfl

/-- The attempt comes to a result. -/
theorem comes (stage : Stage R k p last) (works : p.works = true) {result : Except Failure Nat}
    (phase : q = .ended result) : Stage R k q (last ++ p.reaches k q) := by
  obtain ⟨known, quiet⟩ := stage.under works
  refine .ended result phase ?_
  rw [known, Phase.reaches, quiet, phase]
  rfl

/-- From one phase after the result to another. -/
theorem settled (stage : Stage R k p last) (was : p.works = false ∧ p.result? = none)
    (suits : ∀ result, p.Suits R k result → q.Suits R k result) :
    Stage R k q (last ++ p.reaches k q) := by
  cases stage with
  | working phase known =>
    rw [was.1] at phase
    cases phase
  | ended result phase known =>
    rw [phase] at was
    cases was.2
  | judged result phase known =>
    have after := suits result phase
    have quiet : q.result? = none := by cases q <;> first | rfl | cases after
    refine .judged result after ?_
    rw [known, Phase.reaches, quiet]
    split <;> rfl

/-- The same phase as before. -/
theorem stays (stage : Stage R k p last) (same : p = q) : Stage R k q (last ++ p.reaches k q) := by
  subst same
  have nothing : p.reaches k p = [] := by
    unfold Phase.reaches
    split
    · rename_i quiet
      rw [Option.isNone_iff_eq_none.mp quiet]
      rfl
    · rfl
  rwa [nothing, List.append_nil]

/-- A worker goes on, and no more than one result comes of it. -/
theorem next {w : Worker} {hs : List Happening} (stage : Stage R (n + 1) w.phase last)
    (budget : w.task.remaining + n = R) (next : Next c l w q hs) :
    Stage R (n + 1) q (last ++ w.phase.reaches (n + 1) q) := by
  cases next with
  | fetch t phase | fetched t phase => exact stage.goes (by rw [phase]; rfl) rfl
  | stored t result phase => exact stage.goes (by rw [phase]; rfl) rfl
  | stop t phase told => exact stage.comes (by rcases phase with phase | phase <;> rw [phase] <;> rfl) rfl
  | unfetched t failure phase | rolledBack t phase => exact stage.comes (by rw [phase]; rfl) rfl
  | judge t result phase =>
    rcases storedPhase_cases (c.kinds.get? w.task.kind) w.told t result with h | h | ⟨-, h⟩
    · exact stage.goes (by rw [phase]; rfl) (by rw [h]; rfl)
    · exact stage.comes (by rw [phase]; rfl) h
    · exact stage.comes (by rw [phase]; rfl) h
  | settle result millis phase =>
    have known : last = [.claimed (n + 1), .ended (n + 1) result] := by
      cases stage with
      | working works =>
        rw [phase] at works
        cases works
      | ended other same known =>
        rw [phase] at same
        cases same
        exact known
      | judged other suits =>
        rw [phase] at suits
        cases suits
    refine .judged result (suits_endedPhase budget w.told millis result) ?_
    rw [known, phase]
    rfl
  | interrupted phase | cancelled phase =>
    exact stage.settled (by rw [phase]; exact ⟨rfl, rfl⟩) fun _ _ => trivial
  | refused e attempt phase | again e attempt phase =>
    refine stage.settled (by rw [phase]; exact ⟨rfl, rfl⟩) fun result suits => ?_
    rw [phase] at suits
    exact suits
  | givenUp e attempt phase =>
    refine stage.settled (by rw [phase]; exact ⟨rfl, rfl⟩) fun result suits => ?_
    rw [phase] at suits
    cases e <;> trivial

end Stage

namespace Ledger

/-! ## The invariant -/

/-- With a budget of `R` retries the attempts at the task have failed with `fs` so far, and `last` is what
has become of the one after that: the counters of the task say the same, wherever it is. -/
structure Budget (R : Nat) (id : String) (fs : List Failure) (last : List Milestone) (l : Ledger) :
    Prop where
  retries : fs.length ≤ R
  retryable : ∀ f ∈ fs, f.isRetryable = true
  queued : ∀ t ∈ l.queue, t.id = id →
    t.attempts = fs.length ∧ t.remaining + fs.length = R ∧ last = []
  held : ∀ w ∈ l.workers, w.task.id = id → w.phase.holds = true →
    w.task.attempts = fs.length + 1 ∧ w.task.remaining + fs.length = R ∧
      Stage R (fs.length + 1) w.phase last
  last : Last R fs.length last

variable {R : Nat} {fs : List Failure} {last : List Milestone}

/-- Whoever holds the task has held it before, unless it has just been claimed. -/
theorem Budget.held_step (budget : l.Budget R id fs last) (h : l.Owned) (h' : l'.Owned)
    (act : Act c E l l') {v : Worker} (hv : v ∈ l'.workers) (task : v.task.id = id)
    (holds : v.phase.holds = true) (old : v.seq ≠ l.nextSeq) :
    v.task.attempts = fs.length + 1 ∧ v.task.remaining + fs.length = R ∧
      Stage R (fs.length + 1) v.phase (last ++ l.outcomes id l') := by
  -- The counters are those of the worker before, and only the stage may be a later one.
  have later {w : Worker} (heir : Heir l w v) (wholds : w.phase.holds = true)
      (stage : Stage R (fs.length + 1) w.phase last → w.task.remaining + fs.length = R →
        Stage R (fs.length + 1) v.phase (last ++ w.phase.reaches (fs.length + 1) v.phase)) :
      v.task.attempts = fs.length + 1 ∧ v.task.remaining + fs.length = R ∧
        Stage R (fs.length + 1) v.phase (last ++ l.outcomes id l') := by
    obtain ⟨attempts, remaining, before⟩ :=
      budget.held w heir.here ((congrArg Queued.id heir.task).trans task) wholds
    rw [h.outcomes_of_heir h' heir hv holds task, ← heir.task, attempts]
    exact ⟨rfl, remaining, stage before remaining⟩
  have no {q : Phase} (phase : v.phase = q) (letsGo : q.holds = false) : False := by
    rw [phase, letsGo] at holds
    cases holds
  cases h.origin act hv with
  | same w heir phase => exact later heir (phase ▸ holds) fun stage _ => stage.stays phase
  | claimed seq => exact absurd seq old
  | started w heir was phase =>
    refine later heir (by rw [was]; rfl) fun stage _ => ?_
    rcases phase with ⟨failure, phase⟩ | ⟨t, phase⟩
    · exact stage.comes (by rw [was]; rfl) phase
    · exact stage.goes (by rw [was]; rfl) (by rw [phase]; rfl)
  | moved w heir hs next =>
    exact later heir (next.holds ▸ holds) fun stage remaining => stage.next remaining next
  | handedBack w heir failure remaining attempt was phase =>
    refine later heir (by rw [was]; rfl) fun stage _ => ?_
    refine stage.settled (by rw [was]; exact ⟨rfl, rfl⟩) fun result suits => ?_
    rw [was] at suits
    rw [phase]
    exact suits
  | heldBack w heir was phase => exact (no phase rfl).elim
  | lateStored w heir was phase => exact (no phase rfl).elim
  | ended w heir es phase => exact (no phase rfl).elim

theorem mem_queuedIds {t : Queued} (ht : t ∈ l.queue) : t.id ∈ l.queuedIds := List.mem_map_of_mem ht

/-- A claim of the task is noted. -/
theorem Owned.claimed_of_seq (h : l.Owned) (act : Act c E l l') {hs : List Happening}
    (history : l'.history = hs ++ l.history) {v : Worker} (hv : v ∈ l'.workers) (task : v.task.id = id)
    (new : v.seq = l.nextSeq) : hs.reverse.filterMap (Happening.milestone? id) ≠ [] := by
  cases h.origin act hv with
  | claimed seq phase queued noted =>
    obtain ⟨n, hs', history', hmem⟩ := noted
    obtain rfl := List.append_cancel_right (history'.symm.trans history)
    intro none
    have nothing := List.filterMap_eq_nil_iff.mp none _ (List.mem_reverse.mpr hmem)
    simp [Happening.milestone?, task] at nothing
  | same w heir | started w heir | moved w heir | handedBack w heir | heldBack w heir
  | lateStored w heir | ended w heir =>
    have before := h.seqs_lt w heir.here
    rw [heir.seq, new] at before
    exact absurd before (Nat.lt_irrefl _)

/-- Nothing is noted: the queue has no new entry of the task, and its attempt goes on at most. -/
theorem Budget.quiet_step (budget : l.Budget R id fs last) (h : l.Owned) (act : Act c E l l')
    {hs : List Happening} (history : l'.history = hs ++ l.history)
    (quiet : hs.reverse.filterMap (Happening.milestone? id) = [])
    (queue : ∀ t ∈ l'.queue, t.id = id → t ∈ l.queue) :
    l'.Budget R id fs (last ++ l.outcomes id l') := by
  have h' := h.step act
  have held : ∀ v ∈ l'.workers, v.task.id = id → v.phase.holds = true →
      v.task.attempts = fs.length + 1 ∧ v.task.remaining + fs.length = R ∧
        Stage R (fs.length + 1) v.phase (last ++ l.outcomes id l') :=
    fun v hv task holds => budget.held_step h h' act hv task holds fun new =>
      h.claimed_of_seq act history hv task new quiet
  refine ⟨budget.retries, budget.retryable, ?_, held, ?_⟩
  · intro t ht task
    rw [outcomes_of_not_held (h'.not_held_of_queued (task ▸ mem_queuedIds ht)), List.append_nil]
    exact budget.queued t (queue t ht task) task
  · -- A result is that of the worker that holds the task.
    by_cases holder : l'.Held id
    · obtain ⟨v, hv, task, holds⟩ := holder
      exact (held v hv task holds).2.2.last
    · rw [outcomes_of_not_held holder, List.append_nil]
      exact budget.last

/-- The task is claimed. -/
theorem Budget.claim_step (budget : l.Budget R id fs last) (h : l.Owned) (h' : l'.Owned) {t : Queued}
    {rest : List Queued} (head : l.queue = t :: rest) (task : t.id = id) (queue : l'.queue = rest)
    (workers : ∀ v ∈ l'.workers, v ∈ l.workers ∨
      v.task = { t with attempts := t.attempts + 1 } ∧ v.phase = .claimed) :
    l'.Budget R id fs [.claimed (t.attempts + 1)] ∧ last = [] ∧ l.outcomes id l' = [] := by
  have queued : id ∈ l.queuedIds := by simp [queuedIds, head, task]
  obtain ⟨attempts, remaining, waiting⟩ := budget.queued t (head ▸ List.mem_cons_self) task
  -- A worker of the task is the new one: nobody holds a queued task.
  have new : ∀ v ∈ l'.workers, v.task.id = id → v.phase.holds = true →
      v.task = { t with attempts := t.attempts + 1 } ∧ v.phase = .claimed := by
    intro v hv htask holds
    exact (workers v hv).resolve_left fun old => h.not_held_of_queued queued ⟨v, old, htask, holds⟩
  refine ⟨⟨budget.retries, budget.retryable, ?_, ?_, attempts ▸ .working⟩, waiting, ?_⟩
  · intro x hx htask
    have nodup := h.queuedIds_nodup
    simp only [queuedIds, head, List.map_cons] at nodup
    rw [queue] at hx
    refine absurd (List.mem_map_of_mem hx) (?_ : x.id ∉ rest.map Queued.id)
    rw [htask, ← task]
    exact (List.nodup_cons.mp nodup).1
  · intro v hv htask holds
    obtain ⟨same, phase⟩ := new v hv htask holds
    rw [same, phase, attempts]
    exact ⟨rfl, remaining, .working rfl rfl⟩
  · by_cases holder : l'.Held id
    · obtain ⟨v, hv, htask, holds⟩ := holder
      rw [h'.outcomes_of_holder hv holds htask, outcome?, (new v hv htask holds).2]
      split <;> rfl
    · exact outcomes_of_not_held holder

/-- The task goes back to the queue: its attempt has failed, and there was a retry left. -/
theorem Budget.retry_step (budget : l.Budget R id fs last) (h : l.Owned) (h' : l'.Owned) {w : Worker}
    {f : Failure} {left : Nat} (here : w ∈ l.workers) (task : w.task.id = id)
    (phase : w.phase = .requeueing f left)
    (queue : l'.queue = l.queue ++ [{ w.task with remaining := left }]) :
    l'.Budget R id (fs ++ [f]) [] ∧ l.outcomes id l' = [] ∧
      last = [.claimed (fs.length + 1), .ended (fs.length + 1) (.error f)] ∧
      left = R - (fs.length + 1) := by
  have holds : w.phase.holds = true := by rw [phase]; rfl
  obtain ⟨attempts, remaining, stage⟩ := budget.held w here task holds
  obtain ⟨known, retryable, hleft⟩ : last = [.claimed (fs.length + 1),
      .ended (fs.length + 1) (.error f)] ∧ f.isRetryable = true ∧ left + (fs.length + 1) = R := by
    cases stage with
    | working works => rw [phase] at works; cases works
    | ended result same => rw [phase] at same; cases same
    | judged result suits known =>
      rw [phase] at suits
      obtain ⟨rfl, retryable, hleft⟩ := suits
      exact ⟨known, retryable, hleft⟩
  have free : ¬l'.Held id := h'.not_held_of_queued (by simp [queuedIds, queue, task])
  have length : (fs ++ [f]).length = fs.length + 1 := List.length_append
  refine ⟨⟨by omega, ?_, ?_, ?_, .waiting⟩, outcomes_of_not_held free, known, by omega⟩
  · intro x hx
    rcases List.mem_append.mp hx with hx | hx
    · exact budget.retryable x hx
    · exact List.mem_singleton.mp hx ▸ retryable
  · intro t ht htask
    rw [queue] at ht
    rcases List.mem_append.mp ht with ht | ht
    · exact absurd ⟨w, here, task, holds⟩ (h.not_held_of_queued (htask ▸ mem_queuedIds ht))
    · rw [List.mem_singleton.mp ht, length]
      exact ⟨attempts, hleft, rfl⟩
  · exact fun v hv htask vholds => absurd ⟨v, hv, htask, vholds⟩ free

/-- The task is stored as failed: its attempt has failed for good, or there was no retry left. -/
theorem Budget.fail_step (budget : l.Budget R id fs last) (h : l.Owned) (h' : l'.Owned) {w : Worker}
    {f : Failure} {attempt : Nat} (here : w ∈ l.workers) (task : w.task.id = id)
    (phase : w.phase = .writing (.failed f) attempt) (queue : l'.queue = l.queue)
    (released : id ∉ l'.runningIds) :
    l'.Budget R id fs (last ++ [.failed f.text]) ∧ l.outcomes id l' = [] := by
  have holds : w.phase.holds = true := by rw [phase]; rfl
  obtain ⟨attempts, remaining, stage⟩ := budget.held w here task holds
  obtain ⟨known, final⟩ : last = [.claimed (fs.length + 1), .ended (fs.length + 1) (.error f)] ∧
      (f.isRetryable = false ∨ fs.length = R) := by
    cases stage with
    | working works => rw [phase] at works; cases works
    | ended result same => rw [phase] at same; cases same
    | judged result suits known =>
      rw [phase] at suits
      obtain ⟨rfl, final⟩ := suits
      exact ⟨known, final.imp_right Nat.succ.inj⟩
  have free : ¬l'.Held id := fun held => released (h'.running_of_held held)
  refine ⟨⟨budget.retries, budget.retryable, ?_, ?_, ?_⟩, outcomes_of_not_held free⟩
  · intro t ht htask
    rw [queue] at ht
    exact absurd ⟨w, here, task, holds⟩ (h.not_held_of_queued (htask ▸ mem_queuedIds ht))
  · exact fun v hv htask vholds => absurd ⟨v, hv, htask, vholds⟩ free
  · rw [known]
    exact .failed f final

/-- What an act does to the task is what it adds to the chronicle. -/
theorem Budget.step (budget : l.Budget R id fs last) (h : l.Owned) (accountable : l.Accountable)
    (has : l.Has id) (act : Act c E l l') :
    ∃ hs fs' last', l'.history = hs ++ l.history ∧ l'.Budget R id fs' last' ∧
      rounds R 0 fs' ++ last' = rounds R 0 fs ++ last ++
        (l.outcomes id l' ++ hs.reverse.filterMap (Happening.milestone? id)) := by
  have h' := h.step act
  obtain ⟨hs, history, marks⟩ := h.marks accountable act id
  generalize hnoted : hs.reverse.filterMap (Happening.milestone? id) = noted at marks
  refine ⟨hs, ?_⟩
  rw [hnoted]
  cases marks with
  | none queue =>
    have old : ∀ t ∈ l'.queue, t.id = id → t ∈ l.queue :=
      fun t ht task => (queue t ht task).resolve_right fun new => new.1 has
    refine ⟨fs, last ++ l.outcomes id l', history, budget.quiet_step h act history hnoted old, ?_⟩
    rw [List.append_nil, List.append_assoc]
  | claimed t rest head task queue workers =>
    obtain ⟨after, rfl, nothing⟩ := budget.claim_step h h' head task queue workers
    exact ⟨fs, _, history, after, by simp [nothing]⟩
  | retried w f left here task phase queue =>
    obtain ⟨after, nothing, known, rfl⟩ := budget.retry_step h h' here task phase queue
    refine ⟨fs ++ [f], [], history, after, ?_⟩
    rw [nothing, rounds_concat, known, Nat.zero_add]
    simp
  | failed w f attempt here task phase queue released =>
    obtain ⟨after, nothing⟩ := budget.fail_step h h' here task phase queue released
    exact ⟨fs, _, history, after, by simp [nothing]⟩

/-- Whoever holds a task has held it before, or the task was queued. -/
theorem Owned.has_of_held (h : l.Owned) (act : Act c E l l') (held : l'.Held id) : l.Has id := by
  obtain ⟨v, hv, task, holds⟩ := held
  subst task
  have held {w : Worker} (heir : Heir l w v) (wholds : w.phase.holds = true) : l.Has v.task.id :=
    Or.inr (heir.task ▸ h.mem_runningIds heir.here wholds)
  have no {q : Phase} (phase : v.phase = q) (letsGo : q.holds = false) : l.Has v.task.id := by
    rw [phase, letsGo] at holds
    cases holds
  cases h.origin act hv with
  | same w heir phase => exact held heir (phase ▸ holds)
  | claimed seq phase queued => exact Or.inl queued
  | started w heir was => exact held heir (by rw [was]; rfl)
  | moved w heir hs next => exact held heir (next.holds ▸ holds)
  | handedBack w heir failure remaining attempt was => exact held heir (by rw [was]; rfl)
  | heldBack w heir was phase => exact no phase rfl
  | lateStored w heir was phase => exact no phase rfl
  | ended w heir es phase => exact no phase rfl

/-- A task that was neither queued nor running comes with its whole budget. -/
theorem Budget.of_absent (absent : ¬l.Has id) (free : ¬l'.Held id)
    (queue : ∀ t ∈ l'.queue, t.id = id → t ∈ l.queue ∨ ¬l.Has id ∧ ∃ r, t = Queued.ofRecord c r) :
    l'.Budget c.maxRetries id [] [] := by
  refine ⟨Nat.zero_le _, by simp, ?_, ?_, .waiting⟩
  · intro t ht task
    rcases queue t ht task with old | ⟨-, r, rfl⟩
    · exact absurd (task ▸ Or.inl (mem_queuedIds old)) absent
    · exact ⟨rfl, rfl, rfl⟩
  · exact fun v hv task holds => absurd ⟨v, hv, task, holds⟩ free

/-- A task that is neither queued nor running is not tried. -/
theorem budget_of_absent (h : l.Owned) (accountable : l.Accountable) (absent : ¬l.Has id)
    (act : Act c E l l') :
    ∃ hs, l'.history = hs ++ l.history ∧
      l.outcomes id l' ++ hs.reverse.filterMap (Happening.milestone? id) = [] ∧
      l'.Budget c.maxRetries id [] [] := by
  have unheld {w : Worker} (here : w ∈ l.workers) (task : w.task.id = id) {q : Phase}
      (phase : w.phase = q) (holds : q.holds = true) : False :=
    h.not_held_of_absent absent ⟨w, here, task, phase ▸ holds⟩
  have free : ¬l'.Held id := fun held => absent (h.has_of_held act held)
  obtain ⟨hs, history, marks⟩ := h.marks accountable act id
  generalize hnoted : hs.reverse.filterMap (Happening.milestone? id) = noted at marks
  refine ⟨hs, history, ?_⟩
  rw [hnoted, outcomes_of_not_held free]
  cases marks with
  | none queue => exact ⟨rfl, .of_absent absent free queue⟩
  | claimed t rest head task =>
    exact absurd (task ▸ Or.inl (mem_queuedIds (head ▸ List.mem_cons_self))) absent
  | retried w f left here task phase => exact (unheld here task phase rfl).elim
  | failed w f attempt here task phase => exact (unheld here task phase rfl).elim

end Ledger

namespace State

variable {s t : State} {R : Nat} {fs : List Failure} {last : List Milestone}

/-! ## Moves -/

theorem milestones_of_history {hs : List Happening} (history : t.history = hs ++ s.history) :
    s.milestones id t =
      s.ledger.outcomes id t.ledger ++ hs.reverse.filterMap (Happening.milestone? id) := by
  rw [milestones, since_eq history]

theorem milestones_of_ledger (same : t.ledger = s.ledger) : s.milestones id t = [] := by
  have history : t.history = [] ++ s.history := congrArg Ledger.history same
  rw [milestones_of_history history, Ledger.outcomes_of_workers (congrArg Ledger.workers same)]
  rfl

/-- A recovery is about no attempt. It queues tasks that are neither queued nor running, each with its whole
budget. -/
theorem recover_quiet (h : s.ledger.Owned) (id : String) :
    s.milestones id (s.recover c).2 = [] ∧ (s.recover c).2.workers = s.workers ∧
      ∀ t ∈ (s.recover c).2.queue, t.id = id →
        t ∈ s.queue ∨ ¬s.ledger.Has id ∧ ∃ r, t = Queued.ofRecord c r := by
  have workers : (s.recover c).2.workers = s.workers := (staff_eq_iff.mp s.staff_recover).1
  have after : (s.recover c).2.ledger.Owned := h.acts (s.recover_acts (E := .any)).acts
  obtain ⟨taken, hs, -, queue, running, history, gathers⟩ := s.recover_adds (c := c)
  refine ⟨?_, workers, ?_⟩
  · have quiet : hs.reverse.filterMap (Happening.milestone? id) = [] := by
      rw [List.filterMap_eq_nil_iff]
      intro x hx
      have gathers := gathers x (List.mem_reverse.mp hx)
      cases x with
      | wrote x status error => cases status <;> first | rfl | cases gathers
      | _ => first | rfl | cases gathers
    rw [milestones_of_history history, Ledger.outcomes_of_workers workers, quiet]
    rfl
  · intro t ht task
    rw [queue] at ht
    rcases List.mem_append.mp ht with ht | ht
    · exact Or.inl ht
    · obtain ⟨r, hr, rfl⟩ := List.mem_map.mp ht
      refine Or.inr ⟨?_, r, rfl⟩
      have ids : (s.recover c).2.ledger.queuedIds =
          s.ledger.queuedIds ++ (taken.map (Queued.ofRecord c)).map Queued.id := by
        show (s.recover c).2.queue.map Queued.id = _
        rw [queue, List.map_append]
        rfl
      have nodup := after.queuedIds_nodup
      have new : id ∈ (taken.map (Queued.ofRecord c)).map Queued.id := task ▸ List.mem_map_of_mem ht
      rw [ids] at nodup
      rintro (queued | runs)
      · exact List.disjoint_of_nodup_append nodup queued new
      · refine after.queued_disjoint_running (ids ▸ List.mem_append_right _ new) ?_
        show id ∈ (s.recover c).2.running.map Running.id
        rw [running]
        exact runs

/-- What a move does to a task that is queued or running is what it adds to the chronicle. -/
theorem budget_step (h : s.ledger.Owned) (accountable : s.ledger.Accountable) (has : s.ledger.Has id)
    (budget : s.ledger.Budget R id fs last) {m : Move} (fresh : m.Fresh s) :
    ∃ fs' last', (s.step c m).ledger.Budget R id fs' last' ∧
      rounds R 0 fs' ++ last' = rounds R 0 fs ++ last ++ s.milestones id (s.step c m) := by
  rcases act_of_fresh (c := c) fresh with rfl | act
  · obtain ⟨nothing, workers, queue⟩ := recover_quiet (c := c) h id
    refine ⟨fs, last, ⟨budget.retries, budget.retryable, ?_, ?_, budget.last⟩, ?_⟩
    · intro t ht task
      exact budget.queued t ((queue t ht task).resolve_right fun new => new.1 has) task
    · intro w hw
      exact budget.held w (show w ∈ s.workers from workers ▸ hw)
    · show _ = _ ++ s.milestones id (s.recover c).2
      rw [nothing, List.append_nil]
  · rcases (Relation.reflGen_iff _ _ _).mp act with same | act
    · exact ⟨fs, last, same ▸ budget, by rw [milestones_of_ledger same, List.append_nil]⟩
    · obtain ⟨hs, fs', last', history, after, same⟩ := budget.step h accountable has act
      exact ⟨fs', last', after, by rw [same, milestones_of_history history]⟩

theorem absent_step (h : s.ledger.Owned) (accountable : s.ledger.Accountable)
    (absent : ¬s.ledger.Has id) {m : Move} (fresh : m.Fresh s) :
    s.milestones id (s.step c m) = [] ∧ (s.step c m).ledger.Budget c.maxRetries id [] [] := by
  have free := h.not_held_of_absent absent
  rcases act_of_fresh (c := c) fresh with rfl | act
  · obtain ⟨nothing, workers, queue⟩ := recover_quiet (c := c) h id
    refine ⟨nothing, .of_absent absent ?_ queue⟩
    rintro ⟨w, hw, held⟩
    exact free ⟨w, show w ∈ s.workers from workers ▸ hw, held⟩
  · rcases (Relation.reflGen_iff _ _ _).mp act with same | act
    · refine ⟨milestones_of_ledger same, ?_⟩
      rw [same]
      exact .of_absent absent free fun t ht _ => Or.inl ht
    · obtain ⟨hs, history, nothing, after⟩ := Ledger.budget_of_absent h accountable absent act
      exact ⟨(milestones_of_history history).trans nothing, after⟩

/-- A failure that comes up in a chronicle is what the store says of the task. -/
theorem stored_of_failed (h : s.ledger.Owned) (accountable : s.ledger.Accountable) {m : Move}
    (fresh : m.Fresh s) {error : String} (failed : .failed error ∈ s.milestones id (s.step c m)) :
    ∃ r, (s.step c m).disk.store.get id = .ok r ∧ r.status = .failed ∧ r.error = error := by
  rcases act_of_fresh (c := c) fresh with rfl | act
  · rw [show s.milestones id (s.step c .recover) = [] from (recover_quiet (c := c) h id).1] at failed
    cases failed
  · rcases (Relation.reflGen_iff _ _ _).mp act with same | act
    · rw [milestones_of_ledger same] at failed
      cases failed
    · obtain ⟨hs, history, marks⟩ := h.marks accountable act id
      rw [milestones_of_history history] at failed
      rcases List.mem_append.mp failed with outcome | noted
      · obtain ⟨v, -, hv⟩ := List.mem_filterMap.mp outcome
        unfold Ledger.outcome? at hv
        split at hv
        · split at hv
          · cases hresult : v.phase.result? <;> simp [hresult] at hv
          · cases hv
        · cases hv
      · generalize hs.reverse.filterMap (Happening.milestone? id) = list at marks noted
        cases marks with
        | failed w f attempt here task phase queue released stored =>
          obtain ⟨now, writes⟩ := stored
          cases List.mem_singleton.mp noted
          exact Store.get_updateStatus writes
        | none queue => cases noted
        | claimed t rest => cases List.mem_singleton.mp noted
        | retried w f left => cases List.mem_singleton.mp noted

/-! ## Runs -/

theorem chronicle_of_has (h : s.ledger.Owned) (accountable : s.ledger.Accountable)
    (budget : s.ledger.Budget R id fs last) {ms : List Move} (run : s.Follows c Move.Fresh ms)
    (stays : s.Follows c (fun u _ => u.ledger.Has id) ms) :
    ∃ fs' last', (s.run c ms).ledger.Budget R id fs' last' ∧
      rounds R 0 fs' ++ last' = rounds R 0 fs ++ last ++ s.chronicle c id ms := by
  induction ms generalizing s fs last with
  | nil => exact ⟨fs, last, budget, by simp [chronicle]⟩
  | cons m ms ih =>
    obtain ⟨fresh, run⟩ := run
    obtain ⟨has, stays⟩ := stays
    have acts : Acts c .any s.ledger (s.step c m).ledger := step_acts (act_of_fresh fresh)
    obtain ⟨fs', last', after, same⟩ := budget_step h accountable has budget fresh
    obtain ⟨fs'', last'', final, rest⟩ :=
      ih (h.acts acts) (accountable.acts h.numbered acts) after run stays
    exact ⟨fs'', last'', final, by rw [rest, same, chronicle, List.append_assoc]⟩

theorem chronicle_of_absent (h : s.ledger.Owned) (accountable : s.ledger.Accountable) {ms : List Move}
    (run : s.Follows c Move.Fresh ms) (absent : s.Follows c (fun u _ => ¬u.ledger.Has id) ms) :
    s.chronicle c id ms = [] := by
  induction ms generalizing s with
  | nil => rfl
  | cons m ms ih =>
    obtain ⟨fresh, run⟩ := run
    obtain ⟨here, absent⟩ := absent
    have acts : Acts c .any s.ledger (s.step c m).ledger := step_acts (act_of_fresh fresh)
    rw [chronicle, (absent_step h accountable here fresh).1,
      ih (h.acts acts) (accountable.acts h.numbered acts) run absent]
    rfl

/-- The budget of retries, over every run with fresh submissions. As long as a task is neither queued nor
running nothing becomes of attempts at it. From its entry, as long as it is queued or running and with the
move that ends this, its chronicle is a row of whole rounds and an end: the claims are numbered from one and
there is one more of them than retries at most, each attempt comes to one result, a retry follows on a
retryable failure and reports what is left of the budget, and the task is stored as failed with the text of
the last failure, if that one is final or the budget is used up. The counters that the task carries are
those of the chronicle, and so neither of them ever leaves the range from zero to one above the budget. -/
theorem retry_budget (c : Setup) (disk : Disk) (id : String) (xs ys : List Move)
    (run : (State.init c disk).Follows c Move.Fresh (xs ++ ys)) :
    let s := (State.init c disk).run c xs
    let R := c.maxRetries
    (s.Follows c (fun u _ => ¬u.ledger.Has id) ys → s.chronicle c id ys = []) ∧
      (∀ m zs, ys = m :: zs → ¬s.ledger.Has id →
        (s.step c m).Follows c (fun u _ => u.ledger.Has id) zs →
        ∃ fs last, s.chronicle c id ys = rounds R 0 fs ++ last ∧ Last R fs.length last ∧
          fs.length ≤ R ∧ (∀ f ∈ fs, f.isRetryable = true) ∧
          (∀ t ∈ (s.run c ys).queue, t.id = id →
            t.attempts = fs.length ∧ t.remaining + t.attempts = R ∧ last = []) ∧
          ∀ w ∈ (s.run c ys).workers, w.task.id = id → w.phase.holds = true →
            w.task.attempts = fs.length + 1 ∧ w.task.remaining + w.task.attempts = R + 1) ∧
      ∀ us m zs, ys = us ++ m :: zs →
        let u := s.run c us
        ∀ error, .failed error ∈ u.milestones id (u.step c m) →
          ∃ r, (u.step c m).disk.store.get id = .ok r ∧ r.status = .failed ∧ r.error = error := by
  intro s R
  obtain ⟨before, run⟩ := Follows.append.mp run
  have owned : s.ledger.Owned := (Ledger.Owned.init c disk).acts (run_acts_of_fresh before)
  have accountable : s.ledger.Accountable :=
    (Ledger.Accountable.init c disk).acts (Ledger.Numbered.init c disk) (run_acts_of_fresh before)
  refine ⟨chronicle_of_absent owned accountable run, ?_, ?_⟩
  · rintro m zs rfl absent stays
    obtain ⟨fresh, run⟩ := run
    have acts : Acts c .any s.ledger (s.step c m).ledger := step_acts (act_of_fresh fresh)
    obtain ⟨nothing, enters⟩ := absent_step (c := c) owned accountable absent fresh
    obtain ⟨fs, last, budget, same⟩ :=
      chronicle_of_has (owned.acts acts) (accountable.acts owned.numbered acts) enters run stays
    refine ⟨fs, last, ?_, budget.last, budget.retries, budget.retryable, ?_, ?_⟩
    · rw [chronicle, nothing, same]
      rfl
    · intro t ht task
      obtain ⟨attempts, remaining, waiting⟩ := budget.queued t ht task
      exact ⟨attempts, by omega, waiting⟩
    · intro w hw task holds
      obtain ⟨attempts, remaining, -⟩ := budget.held w hw task holds
      exact ⟨attempts, by omega⟩
  · rintro us m zs rfl u error failed
    obtain ⟨first, fresh, -⟩ := Follows.append.mp run
    have acts : Acts c .any s.ledger u.ledger := run_acts_of_fresh first
    exact stored_of_failed (owned.acts acts) (accountable.acts owned.numbered acts) fresh failed

/-- With one retry, a task fails for want of a network, its next claim is refused once, and it fails
again. -/
def usedUpRun : List Move :=
  [.start, .loop .go, .loop .permit, .loop .go, .loop .go, .worker 0 .go, .worker 0 .go,
    .worker 0 (.fetched (.error ⟨.network, "down"⟩)), .worker 0 .go, .worker 0 .go, .worker 0 .go,
    .worker 0 .go, .worker 0 .go, .outage (.update .running) (.times 1), .loop .go, .loop .permit,
    .loop .go, .loop .go, .loop .pauseOver, .loop .go, .loop .permit, .loop .go, .loop .go, .worker 1 .go,
    .worker 1 .go, .worker 1 (.fetched (.error ⟨.network, "still down"⟩)), .worker 1 .go, .worker 1 .go]

theorem retry_budget_used_up :
    let c := Setup.small 1
    let s := State.init c {}
    let submit : Move := .submit "a" "mem" (Transfer.encode ⟨"a", "out/a"⟩) "film"
    (s.Follows c Move.Fresh (submit :: usedUpRun) ∧ ¬s.ledger.Has "a" ∧
        (s.step c submit).Follows c (fun u _ => u.ledger.Has "a") usedUpRun) ∧
      s.chronicle c "a" (submit :: usedUpRun) =
        [.claimed 1, .ended 1 (.error ⟨.network, "down"⟩), .retried 0 ⟨.network, "down"⟩,
          .claimed 2, .ended 2 (.error ⟨.network, "still down"⟩), .failed "network: still down"] ∧
      ∃ fs last, s.chronicle c "a" (submit :: usedUpRun) = rounds 1 0 fs ++ last ∧ Last 1 fs.length last := by
  have run : (State.init (Setup.small 1) {}).Follows (Setup.small 1) Move.Fresh
      (.submit "a" "mem" (Transfer.encode ⟨"a", "out/a"⟩) "film" :: usedUpRun) := by decide +kernel
  have absent : ¬(State.init (Setup.small 1) {}).ledger.Has "a" := by decide +kernel
  have stays : ((State.init (Setup.small 1) {}).step (Setup.small 1)
      (.submit "a" "mem" (Transfer.encode ⟨"a", "out/a"⟩) "film")).Follows (Setup.small 1)
      (fun u _ => u.ledger.Has "a") usedUpRun := by decide +kernel
  refine ⟨⟨run, absent, stays⟩, by decide +kernel, ?_⟩
  obtain ⟨-, attempts, -⟩ := retry_budget (Setup.small 1) {} "a" [] _ run
  obtain ⟨fs, last, chronicle, hlast, -⟩ := attempts _ _ rfl absent stays
  exact ⟨fs, last, chronicle, hlast⟩

end State

end Courier.Scheduler
