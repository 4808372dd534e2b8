/-
# Courier.Proofs.Scheduler.Requested -- nothing is cancelled unasked

To a worker a cancellation, a shutdown and a fetcher or storage that calls its own failure a cancellation
look alike: it stops. Which of them it was decides what becomes of the task, and only the first may end in
a stored `cancelled`. That status has four writers, the request itself, the worker that has stopped, the
worker that was overtaken on its way back to the queue, and a recovery that finds a cancellation
outstanding. `Ledger.Warranted` says for every place where such a write can come from that a request was
accepted before, and `State.no_spurious_cancellation` says it of whole runs.

Nothing is assumed of a run: ids may be used again, the loop may be told to stop at any time, and fetchers
and storages may fail in any way.
-/
import Courier.Proofs.Scheduler.Gathering
import Courier.Proofs.Scheduler.Slots
import Mathlib.Data.List.Induction

namespace Courier.Scheduler

variable {c : Setup} {E : Edits} {l l' : Ledger}

/-- Is the worker about to store that its task is cancelled, now or after a pause? -/
def Phase.cancels : Phase → Bool
  | .writing e _ | .pausing e _ => e.status = .cancelled
  | _ => false

/-- On its own a worker comes to that only when the cancellation was asked for. -/
theorem Next.cancels {w : Worker} {p : Phase} {hs : List Happening} (next : Next c l w p hs)
    (h : p.cancels = true) : w.phase.cancels = true ∨ l.requested w.task.id = true := by
  cases next with
  | cancelled phase asked => exact Or.inr asked
  | refused e attempt phase again => exact Or.inl (phase ▸ h)
  | again e attempt phase aborted => exact Or.inl (phase ▸ h)
  | judge t result phase =>
    rcases storedPhase_cases (c.kinds.get? w.task.kind) w.told t result with hp | hp | ⟨-, hp⟩ <;>
      rw [hp] at h <;> cases h
  | settle result millis phase =>
    rcases endedPhase_cases w.told w.task.remaining millis result with
      hp | ⟨bytes, -, -, hp⟩ | ⟨failure, -, -, ⟨left, -, hp⟩ | ⟨-, hp⟩⟩ <;> rw [hp] at h <;> cases h
  | givenUp e attempt phase => cases e <;> cases h
  | _ => cases h

namespace Ledger

/-- Wherever a cancellation can still come from, and wherever one was stored, a request to cancel the task
has been accepted. -/
structure Warranted (l : Ledger) : Prop where
  marked : ∀ r ∈ l.running, r.cancelRequested = true → .accepted r.id ∈ l.history
  outstanding : ∀ id ∈ l.cancelling, .accepted id ∈ l.history
  worker : ∀ w ∈ l.workers, w.phase.cancels = true → .accepted w.task.id ∈ l.history
  written : ∀ id error, .wrote id .cancelled error ∈ l.history → .accepted id ∈ l.history

namespace Warranted

theorem requested (h : l.Warranted) {id : String} (asked : l.requested id = true) :
    .accepted id ∈ l.history := by
  unfold Ledger.requested at asked
  split at asked
  · rename_i r found
    have hid : r.id = id := by simpa using List.find?_some found
    rw [← hid]
    exact h.marked r (List.mem_of_find?_eq_some found) asked
  · cases asked

theorem init (c : Setup) (disk : Disk) : (State.init c disk).ledger.Warranted where
  marked _ hr := by cases hr
  outstanding _ hid := by cases hid
  worker _ hw := by cases hw
  written _ _ hwrote := by cases hwrote

theorem marked_step (h : l.Warranted) (act : Act c E l l') :
    ∀ r ∈ l'.running, r.cancelRequested = true → .accepted r.id ∈ l'.history := by
  obtain ⟨hs, history⟩ := act.history
  intro r hr asked
  have kept (old : r ∈ l.running) : .accepted r.id ∈ l'.history := by
    rw [history]
    exact List.mem_append_right _ (h.marked r old asked)
  cases act with
  | tell x found first =>
    obtain ⟨y, hy, rfl⟩ := List.mem_map.mp hr
    by_cases hid : y.id = x.id
    · simp [hid]
    · simp only [hid, if_false] at asked kept ⊢
      exact kept hy
  | claim task rest store head =>
    rcases List.mem_append.mp hr with old | new
    · exact kept (List.mem_filter.mp old).1
    · rw [List.mem_singleton.mp new] at asked
      cases asked
  | finish | letGo | requeue | holdBack => exact kept (List.mem_filter.mp hr).1
  | _ => exact kept hr

theorem outstanding_step (h : l.Warranted) (act : Act c E l l') :
    ∀ id ∈ l'.cancelling, .accepted id ∈ l'.history := by
  obtain ⟨hs, history⟩ := act.history
  intro id hid
  have kept (old : .accepted id ∈ l.history) : .accepted id ∈ l'.history := by
    rw [history]
    exact List.mem_append_right _ old
  cases act with
  | storeCancel | clear => exact kept (h.outstanding id (List.mem_of_mem_erase hid))
  | holdBack w failure remaining here phase asked =>
    rcases List.mem_append.mp hid with old | new
    · exact kept (h.outstanding id old)
    · rw [List.mem_singleton.mp new] at kept ⊢
      exact kept (h.requested asked)
  | _ => exact kept (h.outstanding id hid)

theorem worker_step (h : l.Warranted) (numbered : l.Numbered) (act : Act c E l l') :
    ∀ v ∈ l'.workers, v.phase.cancels = true → .accepted v.task.id ∈ l'.history := by
  obtain ⟨hs, history⟩ := act.history
  intro v hv cancels
  have kept {w : Worker} (heir : Heir l w v) (old : .accepted w.task.id ∈ l.history) :
      .accepted v.task.id ∈ l'.history := by
    rw [history, ← heir.task]
    exact List.mem_append_right _ old
  cases numbered.origin act hv with
  | same w heir phase => exact kept heir (h.worker w heir.here (phase ▸ cancels))
  | moved w heir hs next =>
    rcases next.cancels cancels with already | asked
    · exact kept heir (h.worker w heir.here already)
    · exact kept heir (h.requested asked)
  | heldBack w heir was phase held => exact h.outstanding_step act v.task.id held
  | started w heir was phase =>
    rcases phase with ⟨failure, phase⟩ | ⟨t, phase⟩ <;> rw [phase] at cancels <;> cases cancels
  | claimed seq phase | handedBack w heir failure remaining attempt was phase
  | lateStored w heir was phase | ended w heir es phase =>
    rw [phase] at cancels
    cases cancels

/-- The four writers of `cancelled`. -/
theorem written_step (h : l.Warranted) (act : Act c E l l') :
    ∀ id error, .wrote id .cancelled error ∈ l'.history → .accepted id ∈ l'.history := by
  intro id error wrote
  obtain ⟨hs, history⟩ := act.history
  have kept {x : String} (old : .accepted x ∈ l.history) : .accepted x ∈ l'.history := by
    rw [history]
    exact List.mem_append_right _ old
  have others (news : List Happening) (same : l'.history = news ++ l.history)
      (none : .wrote id .cancelled error ∉ news) : .accepted id ∈ l'.history := by
    rw [same] at wrote
    exact kept (h.written id error ((List.mem_append.mp wrote).resolve_left none))
  have outward {news : List Happening} (quiet : ∀ x ∈ news, x.outward = true) :
      .wrote id .cancelled error ∉ news :=
    fun no => absurd (quiet _ no) nofun
  cases act with
  | withdraw x store queued writes =>
    by_cases hid : id = x
    · subst hid
      exact List.mem_cons_self
    · exact others [_, _, _] rfl (by simp [hid])
  | storeCancel x store here =>
    by_cases hid : id = x
    · subst hid
      exact kept (h.outstanding id here)
    · exact others [_] rfl (by simp [hid])
  | finish w e attempt store here phase =>
    by_cases heq : id = w.task.id ∧ e.status = .cancelled
    · rw [heq.1]
      exact kept (h.worker w here (by rw [phase]; exact decide_eq_true heq.2))
    · exact others [_, _] rfl (by simp; exact fun hid status _ => heq ⟨hid, status.symm⟩)
  | lateStore w attempt store here phase =>
    by_cases hid : id = w.task.id
    · subst hid
      exact kept (h.worker w here (by rw [phase]; rfl))
    · exact others [_] rfl (by simp [hid])
  | callEffect call e => exact others _ rfl (outward e.outward_happenings)
  | workerEffect w e => exact others _ rfl (outward e.outward_happenings)
  | advance w p news here next => exact others _ rfl (outward next.outward)
  | submit => exact others [_, _, _] rfl (by simp)
  | tell | retell | takePending | start => exact others [_] rfl (by simp)
  | takeRunning | claim | letGo => exact others [_, _] rfl (by simp)
  | handBack | holdBack => exact others [_] rfl (by simp)
  | requeue => exact others [_, _, _] rfl (by simp)
  | _ => exact others [] rfl (by simp)

theorem step (h : l.Warranted) (numbered : l.Numbered) (act : Act c E l l') : l'.Warranted where
  marked := h.marked_step act
  outstanding := h.outstanding_step act
  worker := h.worker_step numbered act
  written := h.written_step act

theorem of_same (h : l.Warranted) (hs : List Happening) (running : l'.running = l.running)
    (cancelling : l'.cancelling = l.cancelling) (workers : l'.workers = l.workers)
    (history : l'.history = hs ++ l.history)
    (quiet : ∀ id error, .wrote id .cancelled error ∉ hs) : l'.Warranted := by
  have kept {id : String} (old : .accepted id ∈ l.history) : .accepted id ∈ l'.history := by
    rw [history]
    exact List.mem_append_right _ old
  refine ⟨?_, ?_, ?_, ?_⟩
  · rw [running]
    exact fun r hr asked => kept (h.marked r hr asked)
  · rw [cancelling]
    exact fun id hid => kept (h.outstanding id hid)
  · rw [workers]
    exact fun w hw cancels => kept (h.worker w hw cancels)
  · intro id error wrote
    rw [history] at wrote
    exact kept (h.written id error ((List.mem_append.mp wrote).resolve_left (quiet id error)))

theorem acts (h : l.Warranted) (numbered : l.Numbered) (acts : Acts c E l l') : l'.Warranted := by
  refine (Acts.preserves (P := fun l => l.Numbered ∧ l.Warranted) ?_ acts ⟨numbered, h⟩).2
  exact fun _ _ ⟨n, h⟩ act => ⟨n.step act, h.step n act⟩

end Warranted

end Ledger

namespace State

variable {s : State}

/-! ## Moves -/

theorem warranted_step (h : s.ledger.Warranted) (numbered : s.ledger.Numbered) (m : Move) :
    (s.step c m).ledger.Warranted := by
  cases m with
  | submit id kind payload title =>
    show (s.submit c id kind payload title).2.ledger.Warranted
    rcases s.submit_cases (c := c) id kind payload title with ⟨e, disk, -, hs⟩ | ⟨disk, -, hs⟩ <;> rw [hs]
    · exact h.of_same [] rfl rfl rfl rfl (by simp)
    · exact h.of_same [_, _, _] rfl rfl rfl rfl (by simp)
  | _ => exact h.acts numbered (step_acts (act_of_fresh trivial))

/-- What a turn of the loop notes is a claim. -/
theorem stepLoop_history (s : State) (turn : Turn) :
    (s.stepLoop turn).history = s.history ∨ ∃ id attempt,
      (s.stepLoop turn).history = .claimed id attempt :: .wrote id .running "" :: s.history := by
  unfold stepLoop
  split
  case h_5 =>
    unfold claimNext
    cases hqueue : s.queue with
    | nil => exact Or.inl rfl
    | cons task rest =>
      rcases s.writeStatus_cases task.id .running "" with ⟨disk, hw, -⟩ | ⟨e, disk, hw, -⟩ <;>
        simp only [hw]
      · exact Or.inr ⟨task.id, task.attempts + 1, rfl⟩
      · exact Or.inl trivial
  all_goals first
    | exact Or.inl rfl
    | split <;> exact Or.inl rfl

theorem resume_history (s : State) (call : Nat) :
    ∃ hs, (s.resume call).history = hs ++ s.history ∧ ∀ x ∈ hs, x.outward = true := by
  unfold resume
  split
  · exact ⟨[], rfl, by simp⟩
  · exact ⟨[], rfl, by simp⟩
  · rename_i e es _
    refine ⟨e.happenings, ?_, e.outward_happenings⟩
    cases e <;> rfl

/-- Unless the call is refused, its request is noted. -/
theorem cancel_history (s : State) (id : String) :
    (∃ e, (s.cancel id).1 = .error e ∧ (s.cancel id).2.history = s.history) ∨
      (s.cancel id).1 = .ok () ∧
        ∃ hs, (s.cancel id).2.history = .accepted id :: hs ++ s.history ∧ ∀ x, .accepted x ∉ hs := by
  rcases s.cancel_cases id with ⟨e, disk, -, h⟩ | ⟨disk, -, -, h⟩ | ⟨r, -, -, h⟩ <;> rw [h]
  · exact Or.inl ⟨e, rfl, rfl⟩
  · exact Or.inr ⟨rfl, [_, _], rfl, by simp⟩
  · refine Or.inr ⟨rfl, [], ?_, by simp⟩
    rcases s.tellRunning_cases r with ⟨-, ht⟩ | ⟨-, ht⟩ <;> rw [ht] <;> rfl

/-- A worker accepts no request. -/
theorem Worked.accepted {s t : State} {w : Worker} {answer : Answer} (worked : Worked c s w answer t)
    {id : String} (h : .accepted id ∈ t.history) : .accepted id ∈ s.history := by
  have old (hs : List Happening) (history : t.history = hs ++ s.history) (none : .accepted id ∉ hs) :
      .accepted id ∈ s.history := by
    rw [history] at h
    exact (List.mem_append.mp h).resolve_left none
  cases worked with
  | advance p hs next => exact old hs rfl fun new => absurd (next.outward _ new) nofun
  | effect e es phase =>
    refine old e.happenings ?_ fun new => absurd (e.outward_happenings _ new) nofun
    cases e <;> rfl
  | start | store => exact old [_] rfl (by simp)
  | finish | letGo => exact old [_, _] rfl (by simp)
  | requeue => exact old [_, _, _] rfl (by simp)
  | holdBack => exact old [_] rfl (by simp)
  | _ => exact old [] rfl (by simp)

/-- Only a call of `cancel` accepts a request. -/
theorem accepted_step (s : State) (m : Move) {id : String} (h : .accepted id ∈ (s.step c m).history) :
    .accepted id ∈ s.history ∨ m = .cancel id ∧ (s.cancel id).1 = .ok () := by
  have old (hs : List Happening) (history : (s.step c m).history = hs ++ s.history)
      (none : .accepted id ∉ hs) : .accepted id ∈ s.history := by
    rw [history] at h
    exact (List.mem_append.mp h).resolve_left none
  cases m with
  | cancel x =>
    rcases s.cancel_history x with ⟨-, -, same⟩ | ⟨accepted, hs, history, none⟩
    · exact Or.inl (old [] same (by simp))
    · by_cases hid : id = x
      · subst hid
        exact Or.inr ⟨rfl, accepted⟩
      · exact Or.inl (old (.accepted x :: hs) history (by simp [hid, none]))
  | submit x kind payload title =>
    left
    rcases s.submit_cases (c := c) x kind payload title with ⟨e, disk, -, hs⟩ | ⟨disk, -, hs⟩
    · exact old [] (by rw [step, hs]; rfl) (by simp)
    · exact old [_, _, _] (by rw [step, hs]; rfl) (by simp)
  | recover =>
    obtain ⟨-, hs, -, -, -, history, gathers⟩ := s.recover_adds (c := c)
    exact Or.inl (old hs history fun new => Bool.false_ne_true (gathers _ new))
  | resume call =>
    obtain ⟨hs, history, outward⟩ := s.resume_history call
    exact Or.inl (old hs history fun new => Bool.false_ne_true (outward _ new))
  | loop turn =>
    left
    rcases s.stepLoop_history turn with same | ⟨x, attempt, history⟩
    · exact old [] same (by simp)
    · exact old [_, _] history (by simp)
  | worker seq answer =>
    left
    rcases s.stepWorker_cases (c := c) seq answer with same | ⟨w, -, -, worked⟩
    · exact old [] (congrArg State.history same) (by simp)
    · exact worked.accepted h
  | start =>
    refine Or.inl (old [] ?_ (by simp))
    simp only [step, start]
    split <;> rfl
  | link link =>
    refine Or.inl (old [] ?_ (by simp))
    simp only [step, setLink]
    split <;> rfl
  | putRecord r =>
    refine Or.inl (old [] ?_ (by simp))
    simp only [step]
    split <;> rfl
  | shutdown | unwatch | clock _ | outage _ _ | heal | deleteRecord _ => exact Or.inl h

theorem history_step (s : State) (m : Move) : ∃ hs, (s.step c m).history = hs ++ s.history := by
  rcases m.fresh_or_submit s with fresh | ⟨id, kind, payload, title, rfl⟩
  · exact (step_acts (act_of_fresh fresh)).history
  · show ∃ hs, (s.submit c id kind payload title).2.history = hs ++ s.history
    rcases s.submit_cases (c := c) id kind payload title with ⟨e, disk, -, hs⟩ | ⟨disk, -, hs⟩ <;> rw [hs]
    · exact ⟨[], rfl⟩
    · exact ⟨[_, _, _], rfl⟩

/-- A task comes to be stored as cancelled by a write that is noted, or somebody else puts it there. -/
theorem cancelled_step (s : State) (m : Move) {id : String}
    (h : (s.step c m).disk.store.status? id = some .cancelled) :
    (∃ error, .wrote id .cancelled error ∈ (s.step c m).history) ∨
      s.disk.store.status? id = some .cancelled ∨
        ∃ r, m = .putRecord r ∧ r.id = id ∧ r.status = .cancelled := by
  by_cases inner : m.inner = true
  · let P : Ledger → Prop := fun l => l.store.status? id = some .cancelled →
      (∃ error, .wrote id .cancelled error ∈ l.history) ∨ s.disk.store.status? id = some .cancelled
    have keep : ∀ l l', P l → Act c .none l l' → P l' := by
      intro l l' before act stored
      obtain ⟨hs, history⟩ := act.history
      have still (old : l.store.status? id = some .cancelled) :
          (∃ error, .wrote id .cancelled error ∈ l'.history) ∨
            s.disk.store.status? id = some .cancelled := by
        refine (before old).imp_left ?_
        rintro ⟨error, wrote⟩
        exact ⟨error, history ▸ List.mem_append_right _ wrote⟩
      rcases act.store_cases with same | never | ⟨x, status, error, writes, new, news, noted⟩
      · exact still (same ▸ stored)
      · exact never.elim
      · rw [writes.status?] at stored
        split at stored
        · rename_i hid
          cases stored
          exact Or.inl ⟨error, hid ▸ news ▸ List.mem_append_left _ noted⟩
        · exact still stored
    have after : P (s.step c m).ledger := (acts_of_inner inner).preserves keep Or.inr
    exact (after h).imp_right Or.inl
  · right
    cases m with
    | submit x kind payload title =>
      rcases s.submit_cases (c := c) x kind payload title with ⟨e, disk, same, hs⟩ | ⟨disk, put, hs⟩
      · rw [step, hs] at h
        exact Or.inl (same ▸ h)
      · rw [step, hs] at h
        have h := (Store.status?_put put id).symm.trans h
        split at h
        · cases h
        · exact Or.inl h
    | putRecord r =>
      simp only [step] at h
      split at h
      · rename_i store put
        rw [Store.status?_put put] at h
        split at h
        · rename_i hid
          exact Or.inr ⟨r, rfl, hid.symm, by simpa using h⟩
        · exact Or.inl h
      · exact Or.inl h
    | deleteRecord x =>
      left
      by_cases hid : id = x
      · subst hid
        exact Store.delete_of_mem_ids (Store.mem_ids_of_status? h) ▸ h
      · exact (Store.status?_delete_of_ne hid).symm.trans h
    | _ => exact absurd rfl inner

/-! ## Runs -/

/-- In the run `cancel` was called for the task, and the call returned `Ok`. -/
def Asked (c : Setup) (s : State) (ms : List Move) (id : String) : Prop :=
  ∃ xs ys, ms = xs ++ .cancel id :: ys ∧ ((s.run c xs).cancel id).1 = .ok ()

theorem Asked.append {ms : List Move} {id : String} (h : s.Asked c ms id) (zs : List Move) :
    s.Asked c (ms ++ zs) id := by
  obtain ⟨xs, ys, rfl, accepted⟩ := h
  exact ⟨xs, ys ++ zs, by simp, accepted⟩

theorem asked_of_accepted (ms : List Move) {id : String} (h : .accepted id ∈ (s.run c ms).history)
    (before : .accepted id ∉ s.history) : s.Asked c ms id := by
  induction ms using List.reverseRecOn with
  | nil => exact absurd h before
  | append_singleton ms m ih =>
    rw [run_concat] at h
    rcases accepted_step _ m h with old | ⟨rfl, accepted⟩
    · exact (ih old).append [m]
    · exact ⟨ms, [], rfl, accepted⟩

theorem warranted_run (h : s.ledger.Warranted) (numbered : s.ledger.Numbered) (ms : List Move) :
    (s.run c ms).ledger.Warranted := by
  induction ms generalizing s with
  | nil => exact h
  | cons m ms ih => exact ih (warranted_step h numbered m) (numbered_step numbered m)

theorem history_run (s : State) (ms : List Move) : ∃ hs, (s.run c ms).history = hs ++ s.history := by
  induction ms generalizing s with
  | nil => exact ⟨[], rfl⟩
  | cons m ms ih =>
    obtain ⟨first, after⟩ := history_step (c := c) s m
    obtain ⟨rest, final⟩ := ih (s.step c m)
    exact ⟨rest ++ first, by rw [List.append_assoc, ← after]; exact final⟩

/-- If a task ends a run stored as cancelled, this was written in the run, or it was so from the beginning,
or somebody else has put it there. -/
theorem cancelled_run (s : State) (ms : List Move) {id : String}
    (h : (s.run c ms).disk.store.status? id = some .cancelled) :
    (∃ error, .wrote id .cancelled error ∈ (s.run c ms).history) ∨
      s.disk.store.status? id = some .cancelled ∨
        ∃ r, .putRecord r ∈ ms ∧ r.id = id ∧ r.status = .cancelled := by
  induction ms generalizing s with
  | nil => exact Or.inr (Or.inl h)
  | cons m ms ih =>
    rcases ih (s.step c m) h with wrote | stored | ⟨r, hr, hid, hstatus⟩
    · exact Or.inl wrote
    · rcases cancelled_step s m stored with ⟨error, wrote⟩ | before | ⟨r, rfl, hid, hstatus⟩
      · obtain ⟨hs, history⟩ := (s.step c m).history_run (c := c) ms
        refine Or.inl ⟨error, ?_⟩
        show _ ∈ ((s.step c m).run c ms).history
        rw [history]
        exact List.mem_append_right _ wrote
      · exact Or.inr (Or.inl before)
      · exact Or.inr (Or.inr ⟨r, List.mem_cons_self, hid, hstatus⟩)
    · exact Or.inr (Or.inr ⟨r, List.mem_cons_of_mem m hr, hid, hstatus⟩)

/-- At every point of every run: if the scheduler has stored a task as cancelled, then `cancel` was called
for it by then and returned `Ok`; and if the task is stored as cancelled at all, then so, unless it was so
from the beginning or somebody else has put such a record there. Without a call of `cancel` for it the
scheduler never stores a task as cancelled. -/
theorem no_spurious_cancellation (c : Setup) (disk : Disk) (ms : List Move) (id : String) :
    let s := State.init c disk
    (∀ xs ys, ms = xs ++ ys →
      (∀ error, .wrote id .cancelled error ∈ (s.run c xs).history → s.Asked c xs id) ∧
        ((s.run c xs).disk.store.status? id = some .cancelled →
          s.Asked c xs id ∨ disk.store.status? id = some .cancelled ∨
            ∃ r, .putRecord r ∈ xs ∧ r.id = id ∧ r.status = .cancelled)) ∧
      ((∀ m ∈ ms, m ≠ .cancel id) → ∀ error, .wrote id .cancelled error ∉ (s.run c ms).history) := by
  intro s
  have asked (xs : List Move) (error : String)
      (wrote : .wrote id .cancelled error ∈ (s.run c xs).history) : s.Asked c xs id := by
    have warranted := warranted_run (c := c) (.init c disk) (.init c disk) xs
    exact asked_of_accepted xs (warranted.written id error wrote) (by simp [s, State.init])
  refine ⟨?_, ?_⟩
  · rintro xs ys -
    refine ⟨asked xs, ?_⟩
    intro stored
    rcases cancelled_run s xs stored with ⟨error, wrote⟩ | before | put
    · exact Or.inl (asked xs error wrote)
    · exact Or.inr (Or.inl before)
    · exact Or.inr (Or.inr put)
  · intro uncancelled error wrote
    obtain ⟨xs, ys, hms, -⟩ := asked ms error wrote
    exact uncancelled (.cancel id) (by simp [hms]) rfl

end State

end Courier.Scheduler
