/-
# Courier.Proofs.Scheduler.Outcomes -- who still has something to say

A submission, the start of an attempt and a retry are reported where they happen. All other events, and
the messages to the operators, wait in the list of a caller or of a worker until it gets round to them.
`Ledger.Owes` says that such a report is still to be made. `Act.incurs` has how a party comes to owe one,
and `Act.reported` that an event is reported by a party that owes it, or at once.

What such a list can look like is little: a caller has cancellations and recovered tasks to report and may
leave a wake-up, and a worker has the rest of one outcome (`Ledger.Accountable`).
-/
import Courier.Proofs.Scheduler.Ownership

namespace Courier

/-- Is the event reported where it happens, by nobody's list of things to do? -/
def Event.atOnce : Event → Bool
  | .submitted .. | .started .. | .retryScheduled .. => true
  | _ => false

namespace Scheduler

variable {c : Setup} {E : Edits} {l l' : Ledger}

/-! ## What there may be to do -/

/-- Is this something that a caller has to do? -/
def Effect.ofCaller : Effect → Bool
  | .wake | .report (.cancelled _) | .report (.recovered ..) => true
  | _ => false

/-- What a recovery has to do. -/
theorem State.Recovery.mem_effects {done : State.Recovery} {e : Effect} (he : e ∈ done.effects) :
    (∃ id ∈ done.cancelled, e = .report (.cancelled id)) ∨
      (∃ x ∈ done.recovered, e = .report (.recovered x.1 x.2)) ∨ e = .wake := by
  unfold State.Recovery.effects at he
  rcases List.mem_append.mp he with he | he
  · rcases List.mem_append.mp he with he | he
    · obtain ⟨id, hid, rfl⟩ := List.mem_map.mp he
      exact Or.inl ⟨id, hid, rfl⟩
    · obtain ⟨x, hx, rfl⟩ := List.mem_map.mp he
      exact Or.inr (Or.inl ⟨x, hx, rfl⟩)
  · split at he
    · cases he
    · exact Or.inr (Or.inr (List.mem_singleton.mp he))

theorem State.Recovery.cancelled_mem_effects {done : State.Recovery} {id : String}
    (hid : id ∈ done.cancelled) : .report (.cancelled id) ∈ done.effects :=
  List.mem_append_left _ (List.mem_append_left _ (List.mem_map_of_mem hid))

theorem State.Recovery.ofCaller_effects (done : State.Recovery) : ∀ e ∈ done.effects, e.ofCaller = true := by
  intro e he
  rcases State.Recovery.mem_effects he with ⟨id, -, rfl⟩ | ⟨x, -, rfl⟩ | rfl <;> rfl

/-- When the first thing is done, the rest is still an outcome. -/
theorem Worker.Outcome.tail {w : Worker} {e : Effect} {es : List Effect} (outcome : w.Outcome (e :: es)) :
    w.Outcome es := by
  cases outcome with
  | completed bytes millis => exact .announcing _
  | failed failure => exact .announcing _
  | requeued | interrupted | cancelled | announcing => exact .nothing

/-- An outcome is that of the task, whatever else has become of the worker. -/
theorem Worker.Outcome.congr {v w : Worker} {es : List Effect} (outcome : w.Outcome es)
    (task : w.task = v.task) : v.Outcome es := by
  cases outcome with
  | nothing => exact .nothing
  | requeued => exact .requeued
  | interrupted => exact task ▸ .interrupted
  | cancelled => exact task ▸ .cancelled
  | completed bytes millis => exact task ▸ .completed bytes millis
  | failed failure => exact task ▸ .failed failure
  | announcing n => exact .announcing n

namespace Ledger

/-- What callers and workers may still have to do. -/
structure Accountable (l : Ledger) : Prop where
  calls : ∀ es ∈ l.calls, ∀ e ∈ es, e.ofCaller = true
  outcomes : ∀ w ∈ l.workers, ∀ es, w.phase = .effects es → w.Outcome es

namespace Accountable

theorem init (c : Setup) (disk : Disk) : (State.init c disk).ledger.Accountable where
  calls := by simp [State.ledger, State.init]
  outcomes := by simp [State.ledger, State.init]

theorem calls_step (h : l.Accountable) (act : Act c E l l') :
    ∀ es ∈ l'.calls, ∀ e ∈ es, e.ofCaller = true := by
  have arrives {others : List (List Effect)} {new : List Effect} (before : ∀ es ∈ others, es ∈ l.calls)
      (may : ∀ e ∈ new, e.ofCaller = true) : ∀ es ∈ others ++ [new], ∀ e ∈ es, e.ofCaller = true := by
    intro es hes
    rcases List.mem_append.mp hes with old | last
    · exact h.calls es (before es old)
    · rw [List.mem_singleton.mp last]
      exact may
  cases act with
  | submit | withdraw => exact arrives (fun _ => id) (by simp [Effect.ofCaller])
  | arrive => exact arrives (fun _ => id) nofun
  | storeCancel _ _ _ _ _ others done gathered | takePending _ _ _ _ _ _ others done gathered
  | takeRunning _ _ _ _ _ _ _ _ others done gathered =>
    exact arrives (fun es hes => gathered ▸ List.mem_append_left _ hes) (State.Recovery.ofCaller_effects _)
  | breakOff others es gathered =>
    exact fun fs hfs => h.calls fs (gathered ▸ List.mem_append_left _ hfs)
  | callEffect call e es next =>
    intro fs hfs
    rcases List.mem_or_eq_of_mem_set hfs with old | rfl
    · exact h.calls fs old
    · exact fun x hx => h.calls _ (List.mem_of_getElem? next) x (List.mem_cons_of_mem e hx)
  | callReturn call done => exact fun fs hfs => h.calls fs (List.mem_of_mem_eraseIdx hfs)
  | _ => exact h.calls

theorem outcomes_step (h : l.Accountable) (numbered : l.Numbered) (act : Act c E l l') :
    ∀ v ∈ l'.workers, ∀ es, v.phase = .effects es → v.Outcome es := by
  intro v hv es reports
  cases numbered.origin act hv with
  | same w heir phase => exact (h.outcomes w heir.here es (phase.trans reports)).congr heir.task
  | moved w heir hs next =>
    rw [reports] at next
    rw [next.outcome_nil]
    exact .nothing
  | ended w heir fs phase rest =>
    obtain rfl : fs = es := Phase.effects.inj (phase.symm.trans reports)
    rcases rest with outcome | ⟨e, before⟩
    · exact outcome
    · exact (h.outcomes w heir.here _ before).tail.congr heir.task
  | started w heir was phase =>
    rcases phase with ⟨_, phase⟩ | ⟨_, phase⟩ <;> rw [phase] at reports <;> cases reports
  | claimed seq phase => rw [phase] at reports; cases reports
  | handedBack w heir failure remaining attempt was phase => rw [phase] at reports; cases reports
  | heldBack w heir was phase => rw [phase] at reports; cases reports
  | lateStored w heir was phase => rw [phase] at reports; cases reports

theorem step (h : l.Accountable) (numbered : l.Numbered) (act : Act c E l l') : l'.Accountable where
  calls := h.calls_step act
  outcomes := h.outcomes_step numbered act

theorem acts (h : l.Accountable) (numbered : l.Numbered) (acts : Acts c E l l') : l'.Accountable :=
  (acts.preserves (P := fun l => l.Numbered ∧ l.Accountable)
    (fun _ _ h act => ⟨h.1.step act, h.2.step h.1 act⟩) ⟨numbered, h⟩).2

end Accountable

end Ledger

/-! ## Owing a report -/

namespace Ledger

/-- Somebody has still to report the event. -/
def Owes (l : Ledger) (e : Event) : Prop :=
  (∃ es ∈ l.calls, .report e ∈ es) ∨
    ∃ w ∈ l.workers, ∃ es, w.phase = .effects es ∧ .report e ∈ es

end Ledger

/-- Why somebody has come to owe a report by an act from `l` to `l'`. -/
inductive Incurs (l l' : Ledger) : Event → Prop
  | completed (id : String) (bytes millis : Nat) (wrote : .wrote id .completed "" ∈ l'.history) :
      Incurs l l' (.completed id bytes millis)
  | failed (id : String) (failure : Failure) (wrote : .wrote id .failed failure.text ∈ l'.history) :
      Incurs l l' (.failed id failure)
  | cancelled (id : String) (wrote : .wrote id .cancelled "" ∈ l'.history) : Incurs l l' (.cancelled id)
  /-- The late cancellation was stored by an act before. -/
  | cleared (w : Worker) (here : w ∈ l.workers) (phase : w.phase = .clearing) :
      Incurs l l' (.cancelled w.task.id)
  | interrupted (w : Worker) (here : w ∈ l.workers) (phase : w.phase = .leaving)
      (left : ∀ v ∈ l'.workers, v.seq = w.seq → v.phase.holds = false) :
      Incurs l l' (.interrupted w.task.id)
  | recovered (id : String) (status : Status) : Incurs l l' (.recovered id status)

open Ledger

namespace Ledger.Owes

variable {e : Event}

/-- Nobody has anything new to report. -/
theorem still (owes : l'.Owes e) (calls : l'.calls = l.calls)
    (workers : ∀ v ∈ l'.workers, ∀ es, v.phase = .effects es → ∃ w ∈ l.workers, w.phase = .effects es) :
    l.Owes e := by
  rcases owes with ⟨es, hes, he⟩ | ⟨v, hv, es, phase, he⟩
  · exact Or.inl ⟨es, calls ▸ hes, he⟩
  · obtain ⟨w, hw, phase⟩ := workers v hv es phase
    exact Or.inr ⟨w, hw, es, phase, he⟩

/-- Among the callers there is nobody new, and nobody's list grows. -/
theorem called (owes : l'.Owes e) (workers : l'.workers = l.workers)
    (calls : ∀ es ∈ l'.calls, .report e ∈ es → ∃ fs ∈ l.calls, .report e ∈ fs) : l.Owes e := by
  rcases owes with ⟨es, hes, he⟩ | ⟨v, hv, es, phase, he⟩
  · exact Or.inl (calls es hes he)
  · exact Or.inr ⟨v, workers ▸ hv, es, phase, he⟩

/-- A caller that has come takes its list along. -/
theorem arrives (owes : l'.Owes e) {others : List (List Effect)} {new : List Effect}
    (calls : l'.calls = others ++ [new]) (before : ∀ es ∈ others, es ∈ l.calls)
    (workers : l'.workers = l.workers) : l.Owes e ∨ .report e ∈ new := by
  rcases owes with ⟨es, hes, he⟩ | ⟨v, hv, es, phase, he⟩
  · rw [calls] at hes
    rcases List.mem_append.mp hes with old | new
    · exact Or.inl (Or.inl ⟨es, before es old, he⟩)
    · exact Or.inr (List.mem_singleton.mp new ▸ he)
  · exact Or.inl (Or.inr ⟨v, workers ▸ hv, es, phase, he⟩)

/-- Of the workers only the one that moves may have something new to report. -/
theorem moves (owes : l'.Owes e) (seq : Nat) (p : Phase) (calls : l'.calls = l.calls)
    (workers : l'.workers = (l.setPhase seq p).workers) :
    l.Owes e ∨ ∃ es, p = .effects es ∧ .report e ∈ es := by
  rcases owes with ⟨es, hes, he⟩ | ⟨v, hv, es, phase, he⟩
  · exact Or.inl (Or.inl ⟨es, calls ▸ hes, he⟩)
  · rcases mem_setWorker (workers ▸ hv) with ⟨old, -⟩ | ⟨w, -, -, rfl⟩
    · exact Or.inl (Or.inr ⟨v, old, es, phase, he⟩)
    · exact Or.inr ⟨es, phase, he⟩

/-- A worker that goes on to a list of effects has what is in it to report. -/
theorem lists (owes : l'.Owes e) (seq : Nat) (es : List Effect) (calls : l'.calls = l.calls)
    (workers : l'.workers = (l.setPhase seq (.effects es)).workers) : l.Owes e ∨ .report e ∈ es := by
  refine (owes.moves seq _ calls workers).imp_right fun ⟨fs, same, he⟩ => ?_
  rw [Phase.effects.inj same]
  exact he

/-- A worker that goes to a phase without a list has nothing new to report. -/
theorem quiet (owes : l'.Owes e) {seq : Nat} {p : Phase} (calls : l'.calls = l.calls)
    (workers : l'.workers = (l.setPhase seq p).workers) (silent : ∀ es, p = .effects es → es = []) : l.Owes e :=
  (owes.moves seq p calls workers).resolve_right fun ⟨es, reports, he⟩ => by
    rw [silent es reports] at he
    cases he

/-- What a recovery has gathered before, it owed before. -/
theorem gathers (owes : l'.Owes e) {others : List (List Effect)} {done next : State.Recovery}
    (gathered : l.calls = others ++ [done.effects]) (calls : l'.calls = others ++ [next.effects])
    (workers : l'.workers = l.workers)
    (cancels : ∀ x ∈ next.cancelled, x ∈ done.cancelled ∨ .wrote x .cancelled "" ∈ l'.history) :
    l.Owes e ∨ Incurs l l' e := by
  rcases owes.arrives calls (fun es hes => gathered ▸ List.mem_append_left _ hes) workers with old | he
  · exact Or.inl old
  rcases State.Recovery.mem_effects he with ⟨x, hx, heq⟩ | ⟨x, -, heq⟩ | heq <;> cases heq
  · rcases cancels x hx with before | wrote
    · left
      refine Or.inl ⟨done.effects, ?_, State.Recovery.cancelled_mem_effects before⟩
      rw [gathered]
      exact List.mem_append_right _ List.mem_cons_self
    · exact Or.inr (.cancelled x wrote)
  · exact Or.inr (.recovered x.1 x.2)

end Ledger.Owes

/-- Once an end is stored, it is to be reported. -/
theorem Incurs.of_stored {task : Queued} {x : Ending} {es : List Effect} (releases : x.releases = true)
    (wrote : .wrote task.id x.status x.error ∈ l'.history) (reports : storedStatusPhase task x = .effects es)
    {e : Event} (he : .report e ∈ es) : Incurs l l' e := by
  cases x with
  | completed bytes millis =>
    cases reports
    rcases List.mem_cons.mp he with heq | he
    · cases heq
      exact .completed _ bytes millis wrote
    · cases List.mem_singleton.mp he
  | cancelled =>
    cases reports
    cases List.mem_singleton.mp he
    exact .cancelled _ wrote
  | failed failure =>
    cases reports
    rcases List.mem_cons.mp he with heq | he
    · cases heq
      exact .failed _ failure wrote
    · cases List.mem_singleton.mp he
  | retry | lateCancel => cases releases

/-- A report is owed for a reason. -/
theorem Act.incurs (act : Act c E l l') {e : Event} (owes : l'.Owes e) : l.Owes e ∨ Incurs l l' e := by
  cases act with
  -- Callers.
  | submit r store =>
    exact (owes.arrives rfl (fun _ => id) rfl).imp_right fun he => by cases List.mem_singleton.mp he
  | withdraw x store queued writes =>
    refine (owes.arrives rfl (fun _ => id) rfl).imp_right fun he => ?_
    cases List.mem_singleton.mp he
    exact .cancelled x (by simp)
  | arrive => exact (owes.arrives rfl (fun _ => id) rfl).imp_right fun he => by cases he
  | storeCancel x store outstanding writes listed others done gathered =>
    refine owes.gathers gathered rfl rfl fun y hy => ?_
    refine (List.mem_append.mp hy).imp_right fun new => ?_
    rw [List.mem_singleton.mp new]
    exact List.mem_cons_self
  | takePending r _ _ _ _ _ others done gathered => exact owes.gathers gathered rfl rfl fun y => Or.inl
  | takeRunning r store _ _ _ _ _ _ others done gathered => exact owes.gathers gathered rfl rfl fun y => Or.inl
  | breakOff others es gathered =>
    exact Or.inl (owes.called rfl fun fs hfs he => ⟨fs, gathered ▸ List.mem_append_left _ hfs, he⟩)
  | callEffect call x es next =>
    refine Or.inl (owes.called rfl fun fs hfs he => ?_)
    rcases List.mem_or_eq_of_mem_set hfs with old | rfl
    · exact ⟨fs, old, he⟩
    · exact ⟨x :: fs, List.mem_of_getElem? next, List.mem_cons_of_mem x he⟩
  | callReturn call done => exact Or.inl (owes.called rfl fun fs hfs he => ⟨fs, List.mem_of_mem_eraseIdx hfs, he⟩)
  | edit | retell => exact Or.inl (owes.still rfl fun v hv es phase => ⟨v, hv, phase⟩)
  -- Workers to whom something is done.
  | tell r found first =>
    refine Or.inl (owes.still rfl fun v hv es phase => ?_)
    obtain ⟨w, hw, rfl⟩ := List.mem_map.mp hv
    split at phase <;> exact ⟨w, hw, phase⟩
  | stopAll =>
    refine Or.inl (owes.still rfl fun v hv es phase => ?_)
    obtain ⟨w, hw, rfl⟩ := List.mem_map.mp hv
    exact ⟨w, hw, phase⟩
  | giveUpAll =>
    refine Or.inl (owes.still rfl fun v hv es phase => ?_)
    obtain ⟨w, hw, rfl⟩ := List.mem_map.mp hv
    exact ⟨w, (List.mem_filter.mp hw).1, phase⟩
  | vanish w => exact Or.inl (owes.still rfl fun v hv es phase => ⟨v, (List.mem_filter.mp hv).1, phase⟩)
  | claim task rest store head =>
    refine Or.inl (owes.still rfl fun v hv es phase => ?_)
    rcases List.mem_append.mp hv with old | new
    · exact ⟨v, old, phase⟩
    · rw [List.mem_singleton.mp new] at phase
      cases phase
  | start w now here phase =>
    refine Or.inl (owes.still rfl fun v hv es reports => ?_)
    rcases mem_setWorker hv with ⟨old, -⟩ | ⟨u, -, -, rfl⟩
    · exact ⟨v, old, reports⟩
    · rcases openingPhase_cases c u.task with ⟨failure, -, hp⟩ | ⟨t, hp⟩ <;>
        exact absurd (hp.symm.trans reports) nofun
  -- Workers that go on.
  | advance w p hs here next =>
    refine Or.inl (owes.quiet rfl rfl fun es reports => ?_)
    subst reports
    exact next.outcome_nil
  | handBack | lateStore | holdBack => exact Or.inl (owes.quiet rfl rfl nofun)
  | finish w x attempt store here phase releases writes =>
    refine (owes.moves (l := l) w.seq (storedStatusPhase w.task x) rfl rfl).imp_right fun ⟨es, reports, he⟩ => ?_
    exact .of_stored releases (List.mem_cons_of_mem _ List.mem_cons_self) reports he
  | letGo w es here phase reports =>
    refine (owes.lists (l := l) w.seq es rfl rfl).imp_right fun he => ?_
    rcases reports with ⟨leaves, rfl⟩ | rfl
    · cases List.mem_singleton.mp he
      refine .interrupted w here leaves fun v hv hseq => ?_
      rcases mem_setWorker hv with ⟨-, other⟩ | ⟨x, -, -, rfl⟩
      · exact absurd hseq other
      · rfl
    · cases he
  | requeue w failure remaining here =>
    refine (owes.lists (l := l) w.seq [.wake] rfl rfl).imp_right fun he => ?_
    cases List.mem_singleton.mp he
  | clear w here phase =>
    refine (owes.lists (l := l) w.seq [.report (.cancelled w.task.id)] rfl rfl).imp_right fun he => ?_
    cases List.mem_singleton.mp he
    exact .cleared w here phase
  | workerEffect w x es here phase =>
    refine Or.inl ((owes.lists (l := l) w.seq es rfl rfl).elim id fun he => ?_)
    exact Or.inr ⟨w, here, _, phase, List.mem_cons_of_mem x he⟩

/-! ## Reporting -/

/-- An event is reported by somebody who owes it, or at once. -/
theorem Act.reported (act : Act c E l l') {e : Event} (reported : .reported e ∈ l'.history) :
    .reported e ∈ l.history ∨ l.Owes e ∨ e.atOnce = true := by
  have news (hs : List Happening) (history : l'.history = hs ++ l.history)
      (reason : .reported e ∈ hs → l.Owes e ∨ e.atOnce = true) :
      .reported e ∈ l.history ∨ l.Owes e ∨ e.atOnce = true := by
    rw [history] at reported
    exact (List.mem_append.mp reported).elim (fun new => Or.inr (reason new)) Or.inl
  have told {x : Effect} (new : .reported e ∈ x.happenings) : x = .report e := by
    cases x with
    | report f => cases List.mem_singleton.mp new; rfl
    | announce n => cases List.mem_singleton.mp new
    | wake => cases new
  cases act with
  | callEffect call x es next =>
    refine news x.happenings rfl fun new => Or.inl (Or.inl ⟨x :: es, List.mem_of_getElem? next, ?_⟩)
    rw [told new]
    exact List.mem_cons_self
  | workerEffect w x es here phase =>
    refine news x.happenings rfl fun new => Or.inl (Or.inr ⟨w, here, x :: es, phase, ?_⟩)
    rw [told new]
    exact List.mem_cons_self
  | advance w p hs here next =>
    refine news hs rfl fun new => ?_
    cases next <;> simp at new
  | submit r store => exact news [_, _, _] rfl fun new => Or.inr (by simp at new; rw [new]; rfl)
  | start w now here phase => exact news [_] rfl fun new => Or.inr (by simp at new; rw [new]; rfl)
  | requeue w failure remaining here => exact news [_, _, _] rfl fun new => Or.inr (by simp at new; rw [new]; rfl)
  | withdraw => exact news [_, _, _] rfl fun new => by simp at new
  | tell | retell | storeCancel | takePending | handBack | lateStore | holdBack =>
    exact news [_] rfl fun new => by simp at new
  | takeRunning | claim | finish | letGo => exact news [_, _] rfl fun new => by simp at new
  | _ => exact news [] rfl fun new => by cases new

end Scheduler

end Courier
