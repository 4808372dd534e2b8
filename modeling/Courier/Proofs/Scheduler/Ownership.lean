/-
# Courier.Proofs.Scheduler.Ownership -- every task is in one place

A recovery queues what it finds in the store and does not find in memory, while workers move tasks from
one set to the other and write statuses outside the lock. `Owned` is why that never makes two of one
task: what the scheduler knows of is listed once over the queue, the running and the cancelling set
together, and a worker between its claim and its release has an entry of its own in the running set.
`Owned.step` keeps it act by act, for any changes of the store from outside.

Nothing is said here about what the store holds; `Courier.Proofs.Scheduler.Agreement` does that.
-/
import Courier.Proofs.Scheduler.Moves

namespace Courier.Scheduler

variable {c : Setup} {E : Edits} {l l' : Ledger}

namespace Ledger

/-! ## The invariant -/

theorem mem_tracked {id : String} :
    id ∈ l.tracked ↔ id ∈ l.queuedIds ∨ id ∈ l.runningIds ∨ id ∈ l.cancelling := by
  simp [tracked]

theorem tracked_enter {q : Queued} (queue : l'.queue = l.queue ++ [q])
    (running : l'.running = l.running) (cancelling : l'.cancelling = l.cancelling) :
    l'.tracked.Perm (q.id :: l.tracked) := by
  have happ : l'.tracked = l.queuedIds ++ ([q.id] ++ (l.runningIds ++ l.cancelling)) := by
    simp [tracked, queuedIds, runningIds, queue, running, cancelling]
  rw [happ]
  simp only [tracked, List.append_assoc]
  exact List.perm_middle

theorem tracked_hold {id : String} (queue : l'.queue = l.queue) (running : l'.running = l.running)
    (cancelling : l'.cancelling = l.cancelling ++ [id]) : l'.tracked.Perm (id :: l.tracked) := by
  have happ : l'.tracked = l.tracked ++ [id] := by
    simp [tracked, queuedIds, runningIds, queue, running, cancelling]
  rw [happ]
  exact List.perm_append_singleton _ _

/-- A claim moves the head of the queue to the end of the running set. -/
theorem tracked_claim {task : Queued} {rest : List Queued} {entry : Running}
    (head : l.queue = task :: rest) (id : entry.id = task.id) (queue : l'.queue = rest)
    (running : l'.running = (l.running.filter fun r => r.id ≠ task.id) ++ [entry])
    (cancelling : l'.cancelling = l.cancelling) : l'.tracked.Subperm l.tracked := by
  have happ : l'.tracked = (rest.map Queued.id ++ (l.release task.id).runningIds) ++
      ([task.id] ++ l.cancelling) := by
    simp [tracked, queuedIds, runningIds, release, queue, running, cancelling, id]
  have hold : l.tracked = task.id :: (rest.map Queued.id ++ l.runningIds ++ l.cancelling) := by
    simp [tracked, queuedIds, head]
  rw [happ, hold]
  refine List.Subperm.trans (List.Perm.subperm List.perm_middle) ?_
  rw [List.subperm_cons, runningIds_release]
  exact (((List.Sublist.refl _).append List.filter_sublist).append (List.Sublist.refl _)).subperm

/-- Workers are numbered by their claims, and an entry of the running set bears the number of the worker
whose task it is. -/
structure Numbered (l : Ledger) : Prop where
  seqs_nodup : (l.workers.map Worker.seq).Nodup
  seqs_lt : ∀ w ∈ l.workers, w.seq < l.nextSeq
  entries_lt : ∀ r ∈ l.running, r.seq < l.nextSeq
  /-- An entry in the running set is that of a worker between its claim and its release, if the worker
  is still there. -/
  claimant : ∀ r ∈ l.running, ∀ w ∈ l.workers, r.seq = w.seq →
    r.id = w.task.id ∧ w.phase.holds = true

namespace Numbered

/-- A worker is found by its number. -/
theorem worker_eq (h : l.Numbered) {v w : Worker} (hv : v ∈ l.workers) (hw : w ∈ l.workers)
    (hseq : v.seq = w.seq) : v = w :=
  List.inj_on_of_nodup_map h.seqs_nodup hv hw hseq

theorem found (h : l.Numbered) {w : Worker} (here : w ∈ l.workers) :
    (l.workers.find? fun x => x.seq = w.seq) = some w := by
  cases hfind : l.workers.find? fun x => x.seq = w.seq with
  | none => exact absurd (decide_eq_true rfl) (List.find?_eq_none.mp hfind w here)
  | some x =>
    have hseq : x.seq = w.seq := by simpa using List.find?_some hfind
    rw [h.worker_eq (List.mem_of_find?_eq_some hfind) here hseq]

theorem seqs_step (h : l.Numbered) (act : Act c E l l') :
    (l'.workers.map Worker.seq).Nodup ∧ ∀ w ∈ l'.workers, w.seq < l'.nextSeq := by
  have below : ∀ n ∈ l.workers.map Worker.seq, n < l.nextSeq := List.forall_mem_map.mpr h.seqs_lt
  suffices h' : (l'.workers.map Worker.seq).Nodup ∧ ∀ n ∈ l'.workers.map Worker.seq, n < l'.nextSeq from
    ⟨h'.1, List.forall_mem_map.mp h'.2⟩
  rcases act.seqs with ⟨hsub, hnext⟩ | ⟨happ, hnext⟩
  · rw [hnext]
    exact ⟨h.seqs_nodup.sublist hsub, fun n hn => below n (hsub.subset hn)⟩
  · rw [happ, hnext]
    refine ⟨?_, ?_⟩
    · have fresh : l.nextSeq ∉ l.workers.map Worker.seq := fun hn => Nat.lt_irrefl _ (below _ hn)
      exact h.seqs_nodup.append (List.nodup_singleton _) (List.disjoint_singleton.mpr fresh)
    · intro n hn
      rcases List.mem_append.mp hn with hn | hn
      · exact Nat.lt_succ_of_lt (below n hn)
      · rw [List.mem_singleton.mp hn]
        exact Nat.lt_succ_self _

theorem entries_lt_step (h : l.Numbered) (act : Act c E l l') : ∀ r ∈ l'.running, r.seq < l'.nextSeq := by
  have below : ∀ n ∈ l.running.map Running.seq, n < l.nextSeq := List.forall_mem_map.mpr h.entries_lt
  suffices h' : ∀ n ∈ l'.running.map Running.seq, n < l'.nextSeq from List.forall_mem_map.mp h'
  intro n hn
  rcases act.entries with ⟨hsub, hnext⟩ | ⟨kept, hsub, happ, hnext⟩
  · rw [hnext]
    exact below n (hsub.subset hn)
  · rw [happ] at hn
    rw [hnext]
    rcases List.mem_append.mp hn with hn | hn
    · exact Nat.lt_succ_of_lt (below n (hsub.subset hn))
    · rw [List.mem_singleton.mp hn]
      exact Nat.lt_succ_self _

theorem claimant_setWorker (h : l.Numbered) {w : Worker} (here : w ∈ l.workers) {f : Worker → Worker}
    (seq : (f w).seq = w.seq) (task : (f w).task = w.task)
    (holds : w.phase.holds = true → (f w).phase.holds = true) {r : Running} (hr : r ∈ l.running)
    {v : Worker} (hv : v ∈ (l.setWorker w.seq f).workers) (hrv : r.seq = v.seq) :
    r.id = v.task.id ∧ v.phase.holds = true := by
  rcases mem_setWorker hv with ⟨hv, -⟩ | ⟨x, hx, hseq, rfl⟩
  · exact h.claimant r hr v hv hrv
  · obtain rfl := h.worker_eq hx here hseq
    rw [seq] at hrv
    rw [task]
    obtain ⟨hid, hholds⟩ := h.claimant r hr x hx hrv
    exact ⟨hid, holds hholds⟩

/-- With its entry a worker leaves nothing behind. -/
theorem claimant_release (h : l.Numbered) {w : Worker} (here : w ∈ l.workers) {p : Phase} {r : Running}
    (hr : r ∈ (l.release w.task.id).running) {v : Worker}
    (hv : v ∈ (l.setPhase w.seq p).workers) (hrv : r.seq = v.seq) :
    r.id = v.task.id ∧ v.phase.holds = true := by
  obtain ⟨hmem, hne⟩ := List.mem_filter.mp hr
  rcases mem_setWorker hv with ⟨hv, -⟩ | ⟨x, hx, hseq, rfl⟩
  · exact h.claimant r hmem v hv hrv
  · obtain rfl := h.worker_eq hx here hseq
    exact absurd (h.claimant r hmem x hx hrv).1 (of_decide_eq_true hne)

theorem claimant_step (h : l.Numbered) (act : Act c E l l') : ∀ r ∈ l'.running, ∀ v ∈ l'.workers,
    r.seq = v.seq → r.id = v.task.id ∧ v.phase.holds = true := by
  intro r hr v hv hrv
  cases act with
  | tell x found first =>
    obtain ⟨y, hy, rfl⟩ := List.mem_map.mp hr
    obtain ⟨w, hw, rfl⟩ := List.mem_map.mp hv
    have hyw : y.seq = w.seq := by
      split at hrv <;> split at hrv <;> exact hrv
    have hclaim := h.claimant y hy w hw hyw
    split <;> split <;> exact hclaim
  | stopAll =>
    obtain ⟨w, hw, rfl⟩ := List.mem_map.mp hv
    exact h.claimant r hr w hw hrv
  | giveUpAll =>
    obtain ⟨w, hw, rfl⟩ := List.mem_map.mp hv
    exact h.claimant r hr w (List.mem_filter.mp hw).1 hrv
  | vanish w => exact h.claimant r hr v (List.mem_filter.mp hv).1 hrv
  | claim task rest store head =>
    -- Old numbers are below that of the claim, so an old one and the new one never meet.
    rcases List.mem_append.mp hr with hr | hr <;> rcases List.mem_append.mp hv with hv | hv
    · exact h.claimant r (List.mem_filter.mp hr).1 v hv hrv
    · obtain rfl := List.mem_singleton.mp hv
      exact absurd hrv (Nat.ne_of_lt (h.entries_lt r (List.mem_filter.mp hr).1))
    · obtain rfl := List.mem_singleton.mp hr
      exact absurd hrv.symm (Nat.ne_of_lt (h.seqs_lt v hv))
    · obtain rfl := List.mem_singleton.mp hr
      obtain rfl := List.mem_singleton.mp hv
      exact ⟨rfl, rfl⟩
  | start w now here phase =>
    refine h.claimant_setWorker here rfl rfl (fun _ => ?_) hr hv hrv
    rcases openingPhase_cases c w.task with ⟨_, -, hp⟩ | ⟨_, hp⟩ <;> simp only [hp] <;> rfl
  | advance w p hs here next =>
    exact h.claimant_setWorker here rfl rfl (fun before => next.holds.trans before) hr hv hrv
  | handBack w failure remaining attempt store here phase =>
    exact h.claimant_setWorker here rfl rfl (fun _ => rfl) hr hv hrv
  | lateStore w attempt store here phase =>
    exact h.claimant_setWorker here rfl rfl (fun no => by rw [phase] at no; cases no) hr hv hrv
  | clear w here phase =>
    exact h.claimant_setWorker here rfl rfl (fun no => by rw [phase] at no; cases no) hr hv hrv
  | workerEffect w e es here phase =>
    exact h.claimant_setWorker here rfl rfl (fun no => by rw [phase] at no; cases no) hr hv hrv
  | finish w e attempt store here => exact h.claimant_release here hr hv hrv
  | letGo w es here => exact h.claimant_release here hr hv hrv
  | requeue w failure remaining here => exact h.claimant_release here hr hv hrv
  | holdBack w failure remaining here => exact h.claimant_release here hr hv hrv
  | _ => exact h.claimant r hr v hv hrv

/-- Whatever happens, numbers stay numbers of claims. -/
theorem step (h : l.Numbered) (act : Act c E l l') : l'.Numbered where
  seqs_nodup := (h.seqs_step act).1
  seqs_lt := (h.seqs_step act).2
  entries_lt := h.entries_lt_step act
  claimant := h.claimant_step act

theorem acts (h : l.Numbered) (acts : Acts c E l l') : l'.Numbered :=
  acts.preserves (fun _ _ h act => h.step act) h

/-- Numbers are given to workers and to entries of the running set only. -/
theorem of_eq (h : l.Numbered) (workers : l'.workers = l.workers) (running : l'.running = l.running)
    (next : l'.nextSeq = l.nextSeq) : l'.Numbered where
  seqs_nodup := workers ▸ h.seqs_nodup
  seqs_lt := by
    rw [workers, next]
    exact h.seqs_lt
  entries_lt := by
    rw [running, next]
    exact h.entries_lt
  claimant := by
    rw [running, workers]
    exact h.claimant

theorem init (c : Setup) (disk : Disk) : (State.init c disk).ledger.Numbered where
  seqs_nodup := List.nodup_nil
  seqs_lt := by simp [State.ledger, State.init]
  entries_lt := by simp [State.ledger, State.init]
  claimant := by simp [State.ledger, State.init]

end Numbered

/-- Every task is in one place, and whoever works on it is entered there. -/
structure Owned (l : Ledger) : Prop where
  tracked_nodup : l.tracked.Nodup
  /-- Nothing gets into memory but by the queue. -/
  tracked_enqueued : ∀ id ∈ l.tracked, .enqueued id ∈ l.history
  seqs_nodup : (l.workers.map Worker.seq).Nodup
  seqs_lt : ∀ w ∈ l.workers, w.seq < l.nextSeq
  /-- A worker between its claim and its release has its own entry in the running set. -/
  entry : ∀ w ∈ l.workers, w.phase.holds = true →
    ∃ r ∈ l.running, r.id = w.task.id ∧ r.seq = w.seq
  entries_lt : ∀ r ∈ l.running, r.seq < l.nextSeq
  /-- An entry in the running set is that of a worker between its claim and its release, if the worker
  is still there. -/
  claimant : ∀ r ∈ l.running, ∀ w ∈ l.workers, r.seq = w.seq →
    r.id = w.task.id ∧ w.phase.holds = true

namespace Owned

theorem queuedIds_nodup (h : l.Owned) : l.queuedIds.Nodup :=
  (List.nodup_append.mp (List.nodup_append.mp h.tracked_nodup).1).1

theorem runningIds_nodup (h : l.Owned) : l.runningIds.Nodup :=
  (List.nodup_append.mp (List.nodup_append.mp h.tracked_nodup).1).2.1

theorem cancelling_nodup (h : l.Owned) : l.cancelling.Nodup :=
  (List.nodup_append.mp h.tracked_nodup).2.1

theorem queued_disjoint_running (h : l.Owned) : l.queuedIds.Disjoint l.runningIds :=
  List.disjoint_of_nodup_append (List.nodup_append.mp h.tracked_nodup).1

theorem queued_disjoint_cancelling (h : l.Owned) : l.queuedIds.Disjoint l.cancelling :=
  (List.disjoint_append_left.mp (List.disjoint_of_nodup_append h.tracked_nodup)).1

theorem running_disjoint_cancelling (h : l.Owned) : l.runningIds.Disjoint l.cancelling :=
  (List.disjoint_append_left.mp (List.disjoint_of_nodup_append h.tracked_nodup)).2

theorem mem_runningIds (h : l.Owned) {w : Worker} (hw : w ∈ l.workers)
    (holds : w.phase.holds = true) : w.task.id ∈ l.runningIds := by
  obtain ⟨r, hr, hid, -⟩ := h.entry w hw holds
  exact hid ▸ List.mem_map_of_mem hr

theorem numbered (h : l.Owned) : l.Numbered where
  seqs_nodup := h.seqs_nodup
  seqs_lt := h.seqs_lt
  entries_lt := h.entries_lt
  claimant := h.claimant

theorem worker_eq (h : l.Owned) {v w : Worker} (hv : v ∈ l.workers) (hw : w ∈ l.workers)
    (hseq : v.seq = w.seq) : v = w :=
  h.numbered.worker_eq hv hw hseq

/-- An entry of the running set is found by its task. -/
theorem running_eq (h : l.Owned) {r x : Running} (hr : r ∈ l.running) (hx : x ∈ l.running)
    (hid : r.id = x.id) : r = x :=
  List.inj_on_of_nodup_map h.runningIds_nodup hr hx hid

/-- Two workers between claim and release of one task are the same worker. -/
theorem holder_eq (h : l.Owned) {v w : Worker} (hv : v ∈ l.workers) (hw : w ∈ l.workers)
    (vholds : v.phase.holds = true) (wholds : w.phase.holds = true)
    (hid : v.task.id = w.task.id) : v = w := by
  obtain ⟨r, hr, hrid, hrseq⟩ := h.entry v hv vholds
  obtain ⟨x, hx, hxid, hxseq⟩ := h.entry w hw wholds
  have hrx : r = x := h.running_eq hr hx (by rw [hrid, hxid, hid])
  subst hrx
  exact h.worker_eq hv hw (hrseq.symm.trans hxseq)

/-! ## Places -/

/-- A task that leaves the running set for another place is still listed once. -/
theorem cons_released_subperm (h : l.Owned) {id : String} (running : id ∈ l.runningIds) :
    (id :: (l.release id).tracked).Subperm l.tracked := by
  have hrest : (l.release id).tracked =
      l.queuedIds ++ (l.runningIds.filter fun x => x ≠ id) ++ l.cancelling := by
    rw [← runningIds_release]
    rfl
  rw [hrest]
  apply List.cons_subperm_of_not_mem_of_mem
  · have notQueued : id ∉ l.queuedIds := fun hq => h.queued_disjoint_running hq running
    have notCancelling : id ∉ l.cancelling := h.running_disjoint_cancelling running
    simp [notQueued, notCancelling]
  · simp [tracked, running]
  · exact (((List.Sublist.refl _).append List.filter_sublist).append (List.Sublist.refl _)).subperm

theorem notMem_released (h : l.Owned) {id : String} (running : id ∈ l.runningIds) :
    id ∉ (l.release id).tracked := by
  obtain ⟨ids, hperm, hsub⟩ := h.cons_released_subperm running
  have nodup := hperm.nodup_iff.mp (h.tracked_nodup.sublist hsub)
  exact (List.nodup_cons.mp nodup).1

/-- What an act does to the places: they hold no more than before, or one new task entered the
queue. -/
theorem tracked_step (h : l.Owned) (act : Act c E l l') :
    l'.tracked.Subperm l.tracked ∨
      ∃ id, id ∉ l.tracked ∧ l'.tracked.Perm (id :: l.tracked) ∧
        ∃ hs, l'.history = hs ++ l.history ∧ .enqueued id ∈ hs := by
  have untracked {id : String} (hq : id ∉ l.queuedIds) (hr : id ∉ l.runningIds)
      (hk : id ∉ l.cancelling) : id ∉ l.tracked := by
    simp [tracked, hq, hr, hk]
  cases act with
  | submit r store new pending put =>
    right
    refine ⟨r.id, ?_, tracked_enter (q := .ofRecord c r) rfl rfl rfl, [_, _, _], rfl, by simp⟩
    -- A task in memory has been queued once, and nobody has queued the new id.
    intro known
    exact new.2 (h.tracked_enqueued r.id known)
  | takePending r notHeld notRunning notQueued =>
    right
    exact ⟨r.id, untracked notQueued notRunning notHeld,
      tracked_enter (q := .ofRecord c r) rfl rfl rfl, [_], rfl, List.mem_cons_self⟩
  | takeRunning r store notHeld notRunning notQueued =>
    right
    exact ⟨r.id, untracked notQueued notRunning notHeld,
      tracked_enter (q := .ofRecord c r) rfl rfl rfl, [_, _], rfl, List.mem_cons_self⟩
  | withdraw id store =>
    left
    have hqueue := (List.eraseP_sublist (p := fun t => decide (t.id = id)) (l := l.queue)).map Queued.id
    exact ((hqueue.append (List.Sublist.refl _)).append (List.Sublist.refl _)).subperm
  | tell r found first =>
    left
    simp only [tracked, runningIds, map_id_tell]
    exact List.Subperm.refl _
  | storeCancel id | clear w =>
    left
    exact ((List.Sublist.refl _).append List.erase_sublist).subperm
  | claim task rest store head =>
    left
    exact tracked_claim head rfl rfl rfl rfl
  | finish w e attempt store here phase releases =>
    left
    have hmem := h.mem_runningIds here (by rw [phase, Phase.holds_writing releases])
    exact (List.sublist_cons_self _ _).subperm.trans (h.cons_released_subperm hmem)
  | letGo w es here phase =>
    left
    have hmem := h.mem_runningIds here (Phase.holds_of_leaves phase).1
    exact (List.sublist_cons_self _ _).subperm.trans (h.cons_released_subperm hmem)
  | requeue w failure remaining here phase =>
    left
    have hmem := h.mem_runningIds here (by rw [phase]; rfl)
    refine List.Subperm.trans (List.Perm.subperm ?_) (h.cons_released_subperm hmem)
    exact tracked_enter (q := { w.task with remaining }) rfl rfl rfl
  | holdBack w failure remaining here phase =>
    left
    have hmem := h.mem_runningIds here (by rw [phase]; rfl)
    refine List.Subperm.trans (List.Perm.subperm ?_) (h.cons_released_subperm hmem)
    exact tracked_hold rfl rfl rfl
  | _ => exact Or.inl (List.Subperm.refl _)

/-! ## Entries -/

/-- A worker that changes its phase, with the running set as it is. -/
theorem entry_setWorker (h : l.Owned) {w : Worker} (here : w ∈ l.workers) {f : Worker → Worker}
    (seq : (f w).seq = w.seq) (task : (f w).task = w.task)
    (holds : (f w).phase.holds = true → w.phase.holds = true) {v : Worker}
    (hv : v ∈ (l.setWorker w.seq f).workers) (vholds : v.phase.holds = true) :
    ∃ r ∈ l.running, r.id = v.task.id ∧ r.seq = v.seq := by
  rcases mem_setWorker hv with ⟨hv, -⟩ | ⟨x, hx, hseq, rfl⟩
  · exact h.entry v hv vholds
  · obtain rfl := h.worker_eq hx here hseq
    rw [seq, task]
    exact h.entry x hx (holds vholds)

/-- A worker that leaves the running set: nobody else has the entry that goes. -/
theorem entry_release (h : l.Owned) {w : Worker} (here : w ∈ l.workers)
    (wholds : w.phase.holds = true) {p : Phase} (released : p.holds = false) {v : Worker}
    (hv : v ∈ (l.setPhase w.seq p).workers) (vholds : v.phase.holds = true) :
    ∃ r ∈ (l.release w.task.id).running, r.id = v.task.id ∧ r.seq = v.seq := by
  rcases mem_setWorker hv with ⟨hv, hne⟩ | ⟨x, hx, hseq, rfl⟩
  · obtain ⟨r, hr, hid, hrseq⟩ := h.entry v hv vholds
    refine ⟨r, List.mem_filter.mpr ⟨hr, ?_⟩, hid, hrseq⟩
    rw [decide_eq_true_eq, hid]
    intro htask
    exact hne (congrArg Worker.seq (h.holder_eq hv here vholds wholds htask))
  · rw [released] at vholds
    cases vholds

theorem entry_step (h : l.Owned) (act : Act c E l l') :
    ∀ v ∈ l'.workers, v.phase.holds = true → ∃ r ∈ l'.running, r.id = v.task.id ∧ r.seq = v.seq := by
  intro v hv vholds
  cases act with
  | tell r found first =>
    obtain ⟨w, hw, rfl⟩ := List.mem_map.mp hv
    have wholds : w.phase.holds = true := by
      split at vholds <;> exact vholds
    obtain ⟨x, hx, hid, hseq⟩ := h.entry w hw wholds
    refine ⟨_, List.mem_map_of_mem hx, ?_, ?_⟩
    · split <;> split <;> exact hid
    · split <;> split <;> exact hseq
  | stopAll =>
    obtain ⟨w, hw, rfl⟩ := List.mem_map.mp hv
    exact h.entry w hw vholds
  | giveUpAll =>
    obtain ⟨w, hw, rfl⟩ := List.mem_map.mp hv
    exact h.entry w (List.mem_filter.mp hw).1 vholds
  | vanish w => exact h.entry v (List.mem_filter.mp hv).1 vholds
  | claim task rest store head =>
    rcases List.mem_append.mp hv with hv | hv
    · obtain ⟨r, hr, hid, hseq⟩ := h.entry v hv vholds
      refine ⟨r, List.mem_append_left _ (List.mem_filter.mpr ⟨hr, ?_⟩), hid, hseq⟩
      rw [decide_eq_true_eq]
      -- An entry of the claimed task would be one of a queued task.
      intro htask
      have queued : task.id ∈ l.queuedIds := by simp [queuedIds, head]
      exact h.queued_disjoint_running queued (htask ▸ List.mem_map_of_mem hr)
    · obtain rfl := List.mem_singleton.mp hv
      exact ⟨_, List.mem_append_right _ List.mem_cons_self, rfl, rfl⟩
  | start w now here phase =>
    exact h.entry_setWorker here rfl rfl (fun _ => by rw [phase]; rfl) hv vholds
  | advance w p hs here next => exact h.entry_setWorker here rfl rfl (fun after => next.holds ▸ after) hv vholds
  | handBack w failure remaining attempt store here phase =>
    exact h.entry_setWorker here rfl rfl (fun _ => by rw [phase]; rfl) hv vholds
  | lateStore w attempt store here phase =>
    exact h.entry_setWorker here rfl rfl (fun no => by cases no) hv vholds
  | clear w here phase => exact h.entry_setWorker here rfl rfl (fun no => by cases no) hv vholds
  | workerEffect w e es here phase =>
    exact h.entry_setWorker here rfl rfl (fun no => by cases no) hv vholds
  | finish w e attempt store here phase releases =>
    refine h.entry_release here ?_ ?_ hv vholds
    · rw [phase, Phase.holds_writing releases]
    · cases e <;> first | rfl | cases releases
  | letGo w es here phase =>
    exact h.entry_release here (Phase.holds_of_leaves phase).1 rfl hv vholds
  | requeue w failure remaining here phase =>
    exact h.entry_release here (by rw [phase]; rfl) rfl hv vholds
  | holdBack w failure remaining here phase =>
    exact h.entry_release here (by rw [phase]; rfl) rfl hv vholds
  | _ => exact h.entry v hv vholds

/-! ## Steps -/

/-- Everything that can happen leaves every task in one place. -/
theorem step (h : l.Owned) (act : Act c E l l') : l'.Owned := by
  have numbered := h.numbered.step act
  obtain ⟨hs, hhistory⟩ := act.history
  have older {x : Happening} (hx : x ∈ l.history) : x ∈ l'.history := by
    rw [hhistory]
    exact List.mem_append_right hs hx
  have places : l'.tracked.Nodup ∧ ∀ id ∈ l'.tracked, .enqueued id ∈ l'.history := by
    rcases h.tracked_step act with fewer | ⟨id, new, onemore, hs', hhistory', enqueued⟩
    · obtain ⟨ids, hperm, hsub⟩ := fewer
      refine ⟨(hperm.nodup_iff).mp (h.tracked_nodup.sublist hsub), ?_⟩
      intro id hid
      exact older (h.tracked_enqueued id (hsub.subset (hperm.mem_iff.mpr hid)))
    · refine ⟨onemore.nodup_iff.mpr (List.nodup_cons.mpr ⟨new, h.tracked_nodup⟩), ?_⟩
      intro x hx
      rcases List.mem_cons.mp (onemore.mem_iff.mp hx) with rfl | hx
      · rw [hhistory']
        exact List.mem_append_left _ enqueued
      · exact older (h.tracked_enqueued x hx)
  exact
    { tracked_nodup := places.1
      tracked_enqueued := places.2
      seqs_nodup := numbered.seqs_nodup
      seqs_lt := numbered.seqs_lt
      entry := h.entry_step act
      entries_lt := numbered.entries_lt
      claimant := numbered.claimant }

/-- Callers own nothing. -/
theorem calls (h : l.Owned) (calls : List (List Effect)) : ({ l with calls } : Ledger).Owned :=
  { h with }

theorem init (c : Setup) (disk : Disk) : (State.init c disk).ledger.Owned where
  tracked_nodup := List.nodup_nil
  tracked_enqueued := by simp [tracked, queuedIds, runningIds, State.ledger, State.init]
  seqs_nodup := (Numbered.init c disk).seqs_nodup
  seqs_lt := (Numbered.init c disk).seqs_lt
  entry := by simp [State.ledger, State.init]
  entries_lt := (Numbered.init c disk).entries_lt
  claimant := (Numbered.init c disk).claimant

theorem acts (h : l.Owned) (acts : Acts c E l l') : l'.Owned :=
  acts.preserves (fun _ _ h act => h.step act) h

end Owned

end Ledger

/-! ## Where a worker comes from -/

/-- `v` is `w` after an act. -/
structure Heir (l : Ledger) (w v : Worker) : Prop where
  here : w ∈ l.workers
  seq : w.seq = v.seq
  task : w.task = v.task
  told : w.told = true → v.told = true
  aborted : w.aborted = true → v.aborted = true

/-- What an act from `l` to `l'` has done to one of the workers of `l'`. -/
inductive Origin (c : Setup) (l l' : Ledger) (v : Worker) : Prop
  /-- The act is somebody else's, or at most tells the worker something. -/
  | same (w : Worker) (heir : Heir l w v) (phase : w.phase = v.phase)
  | claimed (seq : v.seq = l.nextSeq) (phase : v.phase = .claimed)
      (queued : v.task.id ∈ l.queuedIds)
      (noted : ∃ n hs, l'.history = hs ++ l.history ∧ .claimed v.task.id n ∈ hs)
      (entry : ∃ t ∈ l.queue, v.task = { t with attempts := t.attempts + 1 })
  | started (w : Worker) (heir : Heir l w v) (was : w.phase = .claimed)
      (phase : (∃ failure, v.phase = .ended (.error failure)) ∨ ∃ t, v.phase = .opening t)
  | moved (w : Worker) (heir : Heir l w v) (hs : List Happening) (next : Next c l w v.phase hs)
  | handedBack (w : Worker) (heir : Heir l w v) (failure : Failure) (remaining attempt : Nat)
      (was : w.phase = .writing (.retry failure remaining) attempt)
      (phase : v.phase = .requeueing failure remaining)
      (stored : l'.store.status? v.task.id = some .pending)
  | heldBack (w : Worker) (heir : Heir l w v) (was : w.phase.requeues = true)
      (phase : v.phase = .writing .lateCancel 1) (kept : v.task.id ∈ l'.cancelling)
  | lateStored (w : Worker) (heir : Heir l w v) (was : w.phase.cancelsLate = true)
      (phase : v.phase = .clearing) (stored : l'.store.status? v.task.id = some .cancelled)
      (noted : .wrote v.task.id .cancelled "" ∈ l'.history)
  | ended (w : Worker) (heir : Heir l w v) (es : List Effect) (phase : v.phase = .effects es)
      (rest : v.Outcome es ∨ ∃ e, w.phase = .effects (e :: es)) (settled : w.phase.isOver = true)

theorem Origin.heir_or_claimed {v : Worker} (origin : Origin c l l' v) :
    (∃ w, Heir l w v) ∨ v.seq = l.nextSeq ∧ v.task.id ∈ l.queuedIds ∧
      ∃ t ∈ l.queue, v.task = { t with attempts := t.attempts + 1 } := by
  cases origin with
  | claimed seq phase queued noted entry => exact Or.inr ⟨seq, queued, entry⟩
  | same w heir | started w heir | moved w heir | handedBack w heir | heldBack w heir
  | lateStored w heir | ended w heir => exact Or.inl ⟨w, heir⟩

/-- A worker that clears a late cancellation did so before, or has just stored it. -/
theorem Origin.of_clearing {v : Worker} (origin : Origin c l l' v) (clears : v.phase = .clearing) :
    (∃ w, Heir l w v ∧ w.phase = .clearing) ∨
      l'.store.status? v.task.id = some .cancelled ∧ .wrote v.task.id .cancelled "" ∈ l'.history := by
  cases origin with
  | same w heir phase => exact Or.inl ⟨w, heir, phase.trans clears⟩
  | lateStored w heir was phase stored noted => exact Or.inr ⟨stored, noted⟩
  | moved w heir hs next => exact absurd clears next.quiet.2.2.1
  | started w heir was phase =>
    rcases phase with ⟨_, phase⟩ | ⟨_, phase⟩ <;> rw [phase] at clears <;> cases clears
  | claimed seq phase => rw [phase] at clears; cases clears
  | handedBack w heir failure remaining attempt was phase => rw [phase] at clears; cases clears
  | heldBack w heir was phase => rw [phase] at clears; cases clears
  | ended w heir es phase => rw [phase] at clears; cases clears

namespace Ledger

/-- A worker of a changed ledger is the one that was changed, or it is as it was. -/
theorem Numbered.heir_setWorker (h : l.Numbered) {w : Worker} (here : w ∈ l.workers) {f : Worker → Worker}
    (seq : (f w).seq = w.seq) (task : (f w).task = w.task) (told : (f w).told = w.told)
    (aborted : (f w).aborted = w.aborted) {v : Worker}
    (hv : v ∈ (l.setWorker w.seq f).workers) :
    (∃ x, Heir l x v ∧ x.phase = v.phase) ∨ v = f w ∧ Heir l w v := by
  rcases mem_setWorker hv with ⟨hv, -⟩ | ⟨x, hx, hseq, rfl⟩
  · exact Or.inl ⟨v, ⟨hv, rfl, rfl, id, id⟩, rfl⟩
  · obtain rfl := h.worker_eq hx here hseq
    exact Or.inr ⟨rfl, hx, seq.symm, task.symm, told.trans, aborted.trans⟩

theorem Numbered.origin (h : l.Numbered) (act : Act c E l l') {v : Worker} (hv : v ∈ l'.workers) :
    Origin c l l' v := by
  have still (hv : v ∈ l.workers) : Origin c l l' v := .same v ⟨hv, rfl, rfl, id, id⟩ rfl
  cases act with
  | tell r found first =>
    obtain ⟨w, hw, rfl⟩ := List.mem_map.mp hv
    split
    · exact .same w ⟨hw, rfl, rfl, fun _ => rfl, id⟩ rfl
    · exact .same w ⟨hw, rfl, rfl, id, id⟩ rfl
  | stopAll =>
    obtain ⟨w, hw, rfl⟩ := List.mem_map.mp hv
    exact .same w ⟨hw, rfl, rfl, fun _ => rfl, id⟩ rfl
  | giveUpAll =>
    obtain ⟨w, hw, rfl⟩ := List.mem_map.mp hv
    exact .same w ⟨(List.mem_filter.mp hw).1, rfl, rfl, id, fun _ => rfl⟩ rfl
  | vanish w => exact still (List.mem_filter.mp hv).1
  | claim task rest store head =>
    rcases List.mem_append.mp hv with hv | hv
    · exact still hv
    · obtain rfl := List.mem_singleton.mp hv
      exact .claimed rfl rfl (by simp [queuedIds, head]) ⟨_, [_, _], rfl, List.mem_cons_self⟩
        ⟨task, head ▸ List.mem_cons_self, rfl⟩
  | start w now here phase =>
    rcases h.heir_setWorker here rfl rfl rfl rfl hv with ⟨x, heir, same⟩ | ⟨rfl, heir⟩
    · exact .same x heir same
    · refine .started w heir phase ?_
      rcases openingPhase_cases c w.task with ⟨failure, -, hp⟩ | ⟨t, hp⟩
      · exact Or.inl ⟨failure, hp⟩
      · exact Or.inr ⟨t, hp⟩
  | advance w p hs here next =>
    rcases h.heir_setWorker here rfl rfl rfl rfl hv with ⟨x, heir, same⟩ | ⟨rfl, heir⟩
    · exact .same x heir same
    · exact .moved w heir hs next
  | handBack w failure remaining attempt store here phase writes =>
    rcases h.heir_setWorker here rfl rfl rfl rfl hv with ⟨x, heir, same⟩ | ⟨rfl, heir⟩
    · exact .same x heir same
    · exact .handedBack w heir failure remaining attempt phase rfl
        writes.status?_self
  | holdBack w failure remaining here phase =>
    rcases h.heir_setWorker here rfl rfl rfl rfl hv with ⟨x, heir, same⟩ | ⟨rfl, heir⟩
    · exact .same x heir same
    · exact .heldBack w heir (by rw [phase]; rfl) rfl (List.mem_append_right _ List.mem_cons_self)
  | lateStore w attempt store here phase writes =>
    rcases h.heir_setWorker here rfl rfl rfl rfl hv with ⟨x, heir, same⟩ | ⟨rfl, heir⟩
    · exact .same x heir same
    · exact .lateStored w heir (by rw [phase]; rfl) rfl writes.status?_self List.mem_cons_self
  | finish w e attempt store here phase releases =>
    rcases h.heir_setWorker here rfl rfl rfl rfl hv with ⟨x, heir, same⟩ | ⟨rfl, heir⟩
    · exact .same x heir same
    · have settled : w.phase.isOver = true := by rw [phase]; rfl
      cases e with
      | completed bytes millis => exact .ended w heir _ rfl (Or.inl (.completed bytes millis)) settled
      | cancelled => exact .ended w heir _ rfl (Or.inl .cancelled) settled
      | failed failure => exact .ended w heir _ rfl (Or.inl (.failed failure)) settled
      | retry | lateCancel => cases releases
  | letGo w es here phase reports =>
    rcases h.heir_setWorker here rfl rfl rfl rfl hv with ⟨x, heir, same⟩ | ⟨rfl, heir⟩
    · exact .same x heir same
    · have settled : w.phase.isOver = true := by rcases phase with phase | phase <;> rw [phase] <;> rfl
      rcases reports with ⟨-, rfl⟩ | rfl
      · exact .ended w heir _ rfl (Or.inl .interrupted) settled
      · exact .ended w heir _ rfl (Or.inl .nothing) settled
  | requeue w failure remaining here phase =>
    rcases h.heir_setWorker here rfl rfl rfl rfl hv with ⟨x, heir, same⟩ | ⟨rfl, heir⟩
    · exact .same x heir same
    · exact .ended w heir _ rfl (Or.inl .requeued) (by rw [phase]; rfl)
  | clear w here phase =>
    rcases h.heir_setWorker here rfl rfl rfl rfl hv with ⟨x, heir, same⟩ | ⟨rfl, heir⟩
    · exact .same x heir same
    · exact .ended w heir _ rfl (Or.inl .cancelled) (by rw [phase]; rfl)
  | workerEffect w e es here phase =>
    rcases h.heir_setWorker here rfl rfl rfl rfl hv with ⟨x, heir, same⟩ | ⟨rfl, heir⟩
    · exact .same x heir same
    · exact .ended w heir _ rfl (Or.inr ⟨e, phase⟩) (by rw [phase]; rfl)
  | _ => exact still hv

theorem Owned.origin (h : l.Owned) (act : Act c E l l') {v : Worker} (hv : v ∈ l'.workers) :
    Origin c l l' v :=
  h.numbered.origin act hv

end Ledger

namespace State

/-- The workers between their claim and their release of a task. -/
def holders (s : State) (id : String) : List Worker :=
  s.workers.filter fun w => w.phase.holds && w.task.id = id

theorem length_holders_le {s : State} (h : s.ledger.Owned) (id : String) :
    (s.holders id).length ≤ 1 := by
  have nodup : (s.holders id).Nodup := (List.Nodup.of_map Worker.seq h.seqs_nodup).filter _
  have same : ∀ v ∈ s.holders id, ∀ w ∈ s.holders id, v = w := by
    intro v hv w hw
    obtain ⟨hv, vholds⟩ := List.mem_filter.mp hv
    obtain ⟨hw, wholds⟩ := List.mem_filter.mp hw
    simp only [Bool.and_eq_true, decide_eq_true_eq] at vholds wholds
    exact h.holder_eq hv hw vholds.1 wholds.1 (vholds.2.trans wholds.2.symm)
  -- A second holder would be the first one again, in a list without repetitions.
  match hs : s.holders id with
  | [] => simp
  | [w] => simp
  | v :: w :: ws =>
    rw [hs] at nodup same
    have hvw : v = w := same v (by simp) w (by simp)
    simp [hvw] at nodup

/-- Single ownership, over every run with fresh submissions, whatever the store refuses and whatever
is written into it or deleted from it from outside: no task is queued twice, none is in two of the
three sets, and no two workers are between claim and release of one task. A worker is there exactly as
long as its entry is in the running set. -/
theorem single_ownership (c : Setup) (disk : Disk) (ms : List Move)
    (run : (State.init c disk).Follows c Move.Fresh ms) :
    let s := (State.init c disk).run c ms
    s.ledger.queuedIds.Nodup ∧ s.ledger.runningIds.Nodup ∧ s.cancelling.Nodup ∧
      s.ledger.queuedIds.Disjoint s.ledger.runningIds ∧
      s.ledger.queuedIds.Disjoint s.cancelling ∧
      s.ledger.runningIds.Disjoint s.cancelling ∧
      (∀ w ∈ s.workers,
        w.phase.holds = true ↔ ∃ r ∈ s.running, r.id = w.task.id ∧ r.seq = w.seq) ∧
      ∀ id, (s.holders id).length ≤ 1 := by
  intro s
  have h : s.ledger.Owned := (Ledger.Owned.init c disk).acts (run_acts_of_fresh run)
  refine ⟨h.queuedIds_nodup, h.runningIds_nodup, h.cancelling_nodup, h.queued_disjoint_running,
    h.queued_disjoint_cancelling, h.running_disjoint_cancelling, ?_, length_holders_le h⟩
  intro w hw
  constructor
  · exact h.entry w hw
  · rintro ⟨r, hr, -, hseq⟩
    exact (h.claimant r hr w hw hseq).2

/-- A task of somebody else is recovered and claimed, and recovered once more while it is held. -/
theorem single_ownership_recovered_twice :
    let c := Setup.small 0
    let ms : List Move :=
      [.putRecord (.new "a" "mem" [] "film" 0), .recover, .start, .loop .go, .loop .permit, .loop .go,
        .loop .go, .recover]
    (State.init c {}).Follows c Move.Fresh ms ∧ ((State.init c {}).run c ms).ledger.runningIds = ["a"] ∧
      (((State.init c {}).run c ms).holders "a").length ≤ 1 := by
  refine ⟨by decide, by decide +kernel, ?_⟩
  exact (single_ownership _ _ _ (by decide)).2.2.2.2.2.2.2 "a"

end State

end Courier.Scheduler
