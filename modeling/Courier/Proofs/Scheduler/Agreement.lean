/-
# Courier.Proofs.Scheduler.Agreement -- what the store says of a task, and where it is

The store outlives the scheduler, so it has to be right at every moment: a task that memory forgets is
found again only by what the store says of it. `Agrees` lists what the two know of each other. It holds
as long as nobody else deletes or overwrites a record (`Edits.additions`), and refused writes do it no
harm, since each of them leaves both sides as they were.

`Agrees.passes` is the table of the changes of status that follows from it, and with it an end that is
stored stays.
-/
import Courier.Proofs.Scheduler.Ownership

namespace Courier.Scheduler

variable {c : Setup} {l l' : Ledger}

namespace Ledger

/-! ## The invariant -/

/-- Memory and store agree. -/
structure Agrees (l : Ledger) : Prop extends l.Owned where
  keyed : l.store.Keyed
  stored : ∀ id, .enqueued id ∈ l.history → ∃ status, l.store.status? id = some status
  queued : ∀ id ∈ l.queuedIds, l.store.status? id = some .pending
  /-- Between the write of `pending` and the return to the queue the two differ. -/
  running : ∀ id ∈ l.runningIds, l.store.status? id = some .running ∨
    l.store.status? id = some .pending ∧
      ∃ w ∈ l.workers, w.task.id = id ∧ w.phase.requeues = true
  cancelling : ∀ id ∈ l.cancelling,
    l.store.status? id = some .pending ∨ l.store.status? id = some .cancelled
  requeueing : ∀ w ∈ l.workers, w.phase.requeues = true →
    l.store.status? w.task.id = some .pending
  /-- A recovery may have stored the cancellation first. -/
  late : ∀ w ∈ l.workers, w.phase.cancelsLate = true →
    w.task.id ∈ l.cancelling ∨ l.store.status? w.task.id = some .cancelled
  clearing : ∀ w ∈ l.workers, w.phase = .clearing →
    l.store.status? w.task.id = some .cancelled
  /-- A pending task is not forgotten. -/
  pending : ∀ id, .enqueued id ∈ l.history → l.store.status? id = some .pending → id ∈ l.tracked

/-! ## Changes of the store -/

/-- A record under a new id changes no status that there was. -/
theorem status?_put_new {r : Record} {store : Store} (new : l.isNew r.id)
    (put : l.store.put r = .ok store) {x : String} {status : Status}
    (before : l.store.status? x = some status) : store.status? x = some status := by
  have hne : x ≠ r.id := by
    rintro rfl
    exact new.1 (Store.mem_ids_of_status? before)
  rw [Store.status?_put put, if_neg hne, before]

/-- A worker that is not the one that is changed stays. -/
theorem Owned.mem_setWorker_of_ne (h : l.Owned) {v w : Worker} (hv : v ∈ l.workers)
    (hw : w ∈ l.workers) (hne : v ≠ w) (f : Worker → Worker) : v ∈ (l.setWorker w.seq f).workers := by
  have hseq : v.seq ≠ w.seq := fun heq => hne (h.worker_eq hv hw heq)
  exact List.mem_map.mpr ⟨v, hv, if_neg hseq⟩

namespace Agrees

/-- A worker that works on a task and has not handed it back finds it stored as running. -/
theorem status_of_holds (h : l.Agrees) {w : Worker} (here : w ∈ l.workers)
    (holds : w.phase.holds = true) (requeues : w.phase.requeues = false) :
    l.store.status? w.task.id = some .running := by
  rcases h.running w.task.id (h.mem_runningIds here holds) with running | ⟨-, v, hv, hid, vrequeues⟩
  · exact running
  · have vholds : v.phase.holds = true := by
      cases hp : v.phase <;> simp_all [Phase.requeues, Phase.holds]
    have hvw : v = w := h.holder_eq hv here vholds holds hid
    rw [hvw, requeues] at vrequeues
    cases vrequeues

/-! ## The table of changes -/

/-- How one act may change the status of one task. -/
inductive Passes : Option Status → Option Status → Prop
  | same (status : Option Status) : Passes status status
  | added (status : Status) : Passes none (some status)
  | claimed : Passes (some .pending) (some .running)
  | withdrawn : Passes (some .pending) (some .cancelled)
  | handedBack : Passes (some .running) (some .pending)
  | ended (status : Status) (terminal : status.isTerminal = true) :
      Passes (some .running) (some status)

/-- A late cancellation is stored over `pending`, or once more. -/
theorem status_of_cancelsLate (h : l.Agrees) {w : Worker} (here : w ∈ l.workers)
    (late : w.phase.cancelsLate = true) :
    l.store.status? w.task.id = some .pending ∨ l.store.status? w.task.id = some .cancelled := by
  rcases h.late w here late with outstanding | cancelled
  · exact h.cancelling w.task.id outstanding
  · exact Or.inr cancelled

/-- The status of every task goes along the table. -/
theorem passes (h : l.Agrees) (act : Act c .additions l l') (x : String) :
    Passes (l.store.status? x) (l'.store.status? x) := by
  have added {r : Record} {store : Store} (new : l.isNew r.id) (put : l.store.put r = .ok store) :
      Passes (l.store.status? x) (store.status? x) := by
    rw [Store.status?_put put]
    split
    · rename_i heq
      rw [heq, Store.status?_of_notMem new.1]
      exact .added r.status
    · exact .same _
  have wrote {id : String} {status : Status} {error : String} {store : Store}
      (writes : l.Writes id status error store)
      (passes : Passes (l.store.status? id) (some status)) :
      Passes (l.store.status? x) (store.status? x) := by
    rw [writes.status?]
    split
    · rename_i heq
      rw [heq]
      exact passes
    · exact .same _
  have cancelled {id : String}
      (before : l.store.status? id = some .pending ∨ l.store.status? id = some .cancelled) :
      Passes (l.store.status? id) (some .cancelled) := by
    rcases before with before | before <;> rw [before]
    · exact .withdrawn
    · exact .same _
  cases act with
  | edit store allowed =>
    obtain ⟨r, new, put⟩ := allowed
    exact added new put
  | submit r store new pending put => exact added new put
  | withdraw id store hqueued writes =>
    exact wrote writes (cancelled (Or.inl (h.queued id hqueued)))
  | storeCancel id store outstanding writes =>
    exact wrote writes (cancelled (h.cancelling id outstanding))
  | takeRunning r store notHeld notRunning notQueued running listed writes =>
    refine wrote writes ?_
    rw [Store.status?_of_row? (listed h.keyed), running]
    exact .handedBack
  | claim task rest store head writes =>
    refine wrote writes ?_
    have hqueued : task.id ∈ l.queuedIds := by simp [queuedIds, head]
    rw [h.queued task.id hqueued]
    exact .claimed
  | finish w e attempt store here phase releases writes =>
    refine wrote writes ?_
    have holds : w.phase.holds = true := by rw [phase, Phase.holds_writing releases]
    rw [h.status_of_holds here holds (by rw [phase]; rfl)]
    exact .ended _ (Ending.isTerminal_of_releases releases)
  | handBack w failure remaining attempt store here phase writes =>
    refine wrote writes ?_
    rw [h.status_of_holds here (by rw [phase]; rfl) (by rw [phase]; rfl)]
    exact .handedBack
  | lateStore w attempt store here phase writes =>
    exact wrote writes (cancelled (h.status_of_cancelsLate here (by rw [phase]; rfl)))
  | _ => exact .same _

theorem terminal_step (h : l.Agrees) (act : Act c .additions l l') {x : String} {status : Status}
    (terminal : status.isTerminal = true) (before : l.store.status? x = some status) :
    l'.store.status? x = some status := by
  have hpasses := h.passes act x
  rw [before] at hpasses
  -- No way of the table starts at an end.
  generalize hafter : l'.store.status? x = after at hpasses
  cases hpasses with
  | same => rfl
  | claimed | withdrawn | handedBack => cases terminal
  | ended => cases terminal

theorem stored_step (h : l.Agrees) (act : Act c .additions l l') {x : String}
    (before : ∃ status, l.store.status? x = some status) :
    ∃ status, l'.store.status? x = some status := by
  obtain ⟨status, before⟩ := before
  have hpasses := h.passes act x
  rw [before] at hpasses
  generalize l'.store.status? x = after at hpasses
  cases hpasses <;> exact ⟨_, rfl⟩

theorem keyed_step (h : l.Agrees) (act : Act c .additions l l') : l'.store.Keyed := by
  rcases act.store_cases with same | ⟨r, -, put⟩ | ⟨id, status, error, writes, -⟩
  · exact same.symm ▸ h.keyed
  · exact h.keyed.put put
  · exact writes.keyed h.keyed

/-! ## Places -/

theorem queued_step (h : l.Agrees) (act : Act c .additions l l') :
    ∀ id ∈ l'.queuedIds, l'.store.status? id = some .pending := by
  intro id hid
  have other {x : String} {status : Status} {error : String} {store : Store}
      (writes : l.Writes x status error store) (hqueued : id ∈ l.queuedIds) (hne : id ≠ x) :
      store.status? id = some .pending := by
    rw [writes.status?_ne hne]
    exact h.queued id hqueued
  cases act with
  | edit store allowed =>
    obtain ⟨r, new, put⟩ := allowed
    exact status?_put_new new put (h.queued id hid)
  | submit r store new pending put =>
    rcases mem_ids_append.mp hid with hid | rfl
    · exact status?_put_new new put (h.queued id hid)
    · exact (Store.status?_put put r.id).trans ((if_pos rfl).trans (congrArg some pending))
  | withdraw x store hqueued writes =>
    -- One entry goes, and with ids that occur once it was the only one of the task.
    have herased : id ∈ l.queuedIds.erase x := (erase_ids l.queue x).symm ▸ hid
    rw [List.Nodup.mem_erase_iff h.queuedIds_nodup] at herased
    exact other writes herased.2 herased.1
  | storeCancel x store outstanding writes =>
    refine other writes hid ?_
    rintro rfl
    exact h.queued_disjoint_cancelling hid outstanding
  | takePending r notHeld notRunning notQueued pending listed =>
    rcases mem_ids_append.mp hid with hid | rfl
    · exact h.queued id hid
    · exact (Store.status?_of_row? (listed h.keyed)).trans (congrArg some pending)
  | takeRunning r store notHeld notRunning notQueued running listed writes =>
    rcases mem_ids_append.mp hid with hid | rfl
    · refine other writes hid ?_
      rintro rfl
      exact notQueued hid
    · exact writes.status?_self
  | claim task rest store head writes =>
    have hnodup := h.queuedIds_nodup
    rw [queuedIds, head, List.map_cons, List.nodup_cons] at hnodup
    refine other writes ?_ ?_
    · rw [queuedIds, head]
      exact List.mem_cons_of_mem _ hid
    · rintro rfl
      exact hnodup.1 hid
  | finish w e attempt store here phase releases writes =>
    refine other writes hid ?_
    rintro rfl
    have holds : w.phase.holds = true := by rw [phase, Phase.holds_writing releases]
    exact h.queued_disjoint_running hid (h.mem_runningIds here holds)
  | handBack w failure remaining attempt store here phase writes =>
    refine other writes hid ?_
    rintro rfl
    exact h.queued_disjoint_running hid (h.mem_runningIds here (by rw [phase]; rfl))
  | lateStore w attempt store here phase writes =>
    refine other writes hid ?_
    rintro rfl
    -- A recovery may have stored the cancellation before; then the task is not pending any more.
    rcases h.late w here (by rw [phase]; rfl) with outstanding | cancelled
    · exact h.queued_disjoint_cancelling hid outstanding
    · have hpending := h.queued _ hid
      rw [cancelled] at hpending
      cases hpending
  | requeue w failure remaining here phase =>
    rcases mem_ids_append.mp hid with hid | rfl
    · exact h.queued id hid
    · exact h.requeueing w here (by rw [phase]; rfl)
  | _ => exact h.queued id hid

/-- A worker that has stored `pending` stays where it is until it leaves the running set. -/
theorem requeues_step (h : l.Agrees) (act : Act c .additions l l') {w : Worker} (hw : w ∈ l.workers)
    (hp : w.phase.requeues = true) :
    (∃ v ∈ l'.workers, v.task.id = w.task.id ∧ v.phase.requeues = true) ∨
      w.task.id ∉ l'.runningIds := by
  have kept {u : Worker} (here : u ∈ l.workers) (hu : u.phase.requeues = false) (f : Worker → Worker) :
      w ∈ (l.setWorker u.seq f).workers := by
    refine h.mem_setWorker_of_ne hw here ?_ f
    rintro rfl
    rw [hp] at hu
    cases hu
  have released {u : Worker} (here : u ∈ l.workers) (p : Phase) :
      w ∈ (l.setPhase u.seq p).workers ∨ w.task.id ∉ (l.release u.task.id).runningIds := by
    by_cases hwu : w = u
    · right
      simp [runningIds_release, hwu]
    · exact Or.inl (h.mem_setWorker_of_ne hw here hwu _)
  cases act with
  | tell r found first =>
    left
    refine ⟨_, List.mem_map_of_mem hw, ?_, ?_⟩ <;> split <;> first | rfl | exact hp
  | stopAll => exact Or.inl ⟨_, List.mem_map_of_mem hw, rfl, hp⟩
  | giveUpAll =>
    have stays : w ∈ l.workers.filter fun w => !w.phase.waits := by
      refine List.mem_filter.mpr ⟨hw, ?_⟩
      rw [Bool.not_eq_true', ← Bool.not_eq_true]
      intro waits
      rw [Phase.requeues_of_waits waits] at hp
      cases hp
    exact Or.inl ⟨_, List.mem_map_of_mem stays, rfl, hp⟩
  | vanish u here ended =>
    refine Or.inl ⟨w, List.mem_filter.mpr ⟨hw, ?_⟩, rfl, hp⟩
    rw [decide_eq_true_eq]
    intro hseq
    obtain rfl := h.worker_eq hw here hseq
    rcases ended with ended | ⟨-, ended⟩
    · rw [ended] at hp
      cases hp
    · rw [Phase.requeues_of_waits ended] at hp
      cases hp
  | claim task rest store head => exact Or.inl ⟨w, List.mem_append_left _ hw, rfl, hp⟩
  | start u now here phase => exact Or.inl ⟨w, kept here (by rw [phase]; rfl) _, rfl, hp⟩
  | advance u p hs here next => exact Or.inl ⟨w, kept here next.quiet.1 _, rfl, hp⟩
  | finish u e attempt store here phase =>
    exact Or.inl ⟨w, kept here (by rw [phase]; rfl) _, rfl, hp⟩
  | handBack u failure remaining attempt store here phase =>
    exact Or.inl ⟨w, kept here (by rw [phase]; rfl) _, rfl, hp⟩
  | lateStore u attempt store here phase =>
    exact Or.inl ⟨w, kept here (by rw [phase]; rfl) _, rfl, hp⟩
  | letGo u es here phase =>
    exact Or.inl ⟨w, kept here (Phase.holds_of_leaves phase).2 _, rfl, hp⟩
  | clear u here phase => exact Or.inl ⟨w, kept here (by rw [phase]; rfl) _, rfl, hp⟩
  | workerEffect u e es here phase => exact Or.inl ⟨w, kept here (by rw [phase]; rfl) _, rfl, hp⟩
  | requeue u failure remaining here phase =>
    exact (released here _).imp (fun hw => ⟨w, hw, rfl, hp⟩) id
  | holdBack u failure remaining here phase =>
    exact (released here _).imp (fun hw => ⟨w, hw, rfl, hp⟩) id
  | _ => exact Or.inl ⟨w, hw, rfl, hp⟩

/-- Three ways to be running after an act: as before, by a claim, and with `pending` just stored. -/
theorem status_of_running (h : l.Agrees) (act : Act c .additions l l') {id : String}
    (hid : id ∈ l'.runningIds) :
    (id ∈ l.runningIds ∧
        ∀ status, l.store.status? id = some status → l'.store.status? id = some status) ∨
      (id ∉ l.runningIds ∧ l'.store.status? id = some .running) ∨
      l'.store.status? id = some .pending ∧
        ∃ w ∈ l'.workers, w.task.id = id ∧ w.phase.requeues = true := by
  have other {x : String} {status : Status} {error : String}
      (writes : l.Writes x status error l'.store) (hne : id ≠ x) (status' : Status)
      (before : l.store.status? id = some status') : l'.store.status? id = some status' := by
    rw [writes.status?_ne hne]
    exact before
  cases act with
  | edit store allowed =>
    obtain ⟨r, new, put⟩ := allowed
    exact Or.inl ⟨hid, fun status before => status?_put_new new put before⟩
  | submit r store new pending put =>
    exact Or.inl ⟨hid, fun status before => status?_put_new new put before⟩
  | withdraw x store hqueued writes =>
    refine Or.inl ⟨hid, other writes ?_⟩
    rintro rfl
    exact h.queued_disjoint_running hqueued hid
  | storeCancel x store outstanding writes =>
    refine Or.inl ⟨hid, other writes ?_⟩
    rintro rfl
    exact h.running_disjoint_cancelling hid outstanding
  | takeRunning r store notHeld notRunning notQueued running listed writes =>
    refine Or.inl ⟨hid, other writes ?_⟩
    rintro rfl
    exact notRunning hid
  | tell r found first =>
    simp only [runningIds, map_id_tell] at hid
    exact Or.inl ⟨hid, fun _ before => before⟩
  | claim task rest store head writes =>
    have hmem : id ∈ (l.release task.id).runningIds ++ [task.id] := by
      simpa [runningIds, release] using hid
    rcases List.mem_append.mp hmem with hmem | hmem
    · obtain ⟨before, hne⟩ := mem_release.mp hmem
      exact Or.inl ⟨before, other writes hne⟩
    · obtain rfl := List.mem_singleton.mp hmem
      have hqueued : task.id ∈ l.queuedIds := by simp [queuedIds, head]
      exact Or.inr (Or.inl ⟨h.queued_disjoint_running hqueued, writes.status?_self⟩)
  | finish w e attempt store here phase releases writes =>
    obtain ⟨before, hne⟩ := mem_release (l := l).mp hid
    exact Or.inl ⟨before, other writes hne⟩
  | handBack w failure remaining attempt store here phase writes =>
    by_cases hne : id = w.task.id
    · subst hne
      have worker : { w with phase := .requeueing failure remaining } ∈
          (l.setPhase w.seq (.requeueing failure remaining)).workers :=
        List.mem_map.mpr ⟨w, here, if_pos rfl⟩
      exact Or.inr (Or.inr ⟨writes.status?_self, _, worker, rfl, rfl⟩)
    · exact Or.inl ⟨hid, other writes hne⟩
  | lateStore w attempt store here phase writes =>
    refine Or.inl ⟨hid, other writes ?_⟩
    rintro rfl
    rcases h.late w here (by rw [phase]; rfl) with outstanding | cancelled
    · exact h.running_disjoint_cancelling hid outstanding
    · rcases h.running _ hid with before | ⟨before, -⟩ <;> rw [cancelled] at before <;> cases before
  | letGo w es here => exact Or.inl ⟨(mem_release (l := l).mp hid).1, fun _ before => before⟩
  | requeue w failure remaining here =>
    exact Or.inl ⟨(mem_release (l := l).mp hid).1, fun _ before => before⟩
  | holdBack w failure remaining here =>
    exact Or.inl ⟨(mem_release (l := l).mp hid).1, fun _ before => before⟩
  | _ => exact Or.inl ⟨hid, fun _ before => before⟩

theorem running_step (h : l.Agrees) (act : Act c .additions l l') :
    ∀ id ∈ l'.runningIds, l'.store.status? id = some .running ∨
      l'.store.status? id = some .pending ∧
        ∃ w ∈ l'.workers, w.task.id = id ∧ w.phase.requeues = true := by
  intro id hid
  rcases h.status_of_running act hid with ⟨before, same⟩ | ⟨-, running⟩ | handedBack
  · rcases h.running id before with running | ⟨pending, w, hw, rfl, hp⟩
    · exact Or.inl (same _ running)
    · rcases h.requeues_step act hw hp with worker | gone
      · exact Or.inr ⟨same _ pending, worker⟩
      · exact absurd hid gone
  · exact Or.inl running
  · exact Or.inr handedBack

theorem cancelling_step (h : l.Agrees) (act : Act c .additions l l') :
    ∀ id ∈ l'.cancelling,
      l'.store.status? id = some .pending ∨ l'.store.status? id = some .cancelled := by
  intro id hid
  have other {x : String} {status : Status} {error : String} {store : Store}
      (writes : l.Writes x status error store) (before : id ∈ l.cancelling) (hne : id ≠ x) :
      store.status? id = some .pending ∨ store.status? id = some .cancelled := by
    rw [writes.status?_ne hne]
    exact h.cancelling id before
  cases act with
  | edit store allowed =>
    obtain ⟨r, new, put⟩ := allowed
    exact (h.cancelling id hid).imp (status?_put_new new put) (status?_put_new new put)
  | submit r store new pending put =>
    exact (h.cancelling id hid).imp (status?_put_new new put) (status?_put_new new put)
  | withdraw x store hqueued writes =>
    refine other writes hid ?_
    rintro rfl
    exact h.queued_disjoint_cancelling hqueued hid
  | storeCancel x store outstanding writes =>
    by_cases hne : id = x
    · exact Or.inr (hne ▸ writes.status?_self)
    · exact other writes (List.mem_of_mem_erase hid) hne
  | takeRunning r store notHeld notRunning notQueued running listed writes =>
    refine other writes hid ?_
    rintro rfl
    exact notHeld hid
  | claim task rest store head writes =>
    refine other writes hid ?_
    rintro rfl
    exact h.queued_disjoint_cancelling (by simp [queuedIds, head]) hid
  | finish w e attempt store here phase releases writes =>
    refine other writes hid ?_
    rintro rfl
    have holds : w.phase.holds = true := by rw [phase, Phase.holds_writing releases]
    exact h.running_disjoint_cancelling (h.mem_runningIds here holds) hid
  | handBack w failure remaining attempt store here phase writes =>
    refine other writes hid ?_
    rintro rfl
    exact h.running_disjoint_cancelling (h.mem_runningIds here (by rw [phase]; rfl)) hid
  | lateStore w attempt store here phase writes =>
    by_cases hne : id = w.task.id
    · exact Or.inr (hne ▸ writes.status?_self)
    · exact other writes hid hne
  | holdBack w failure remaining here phase =>
    rcases List.mem_append.mp hid with hid | hid
    · exact h.cancelling id hid
    · obtain rfl := List.mem_singleton.mp hid
      exact Or.inl (h.requeueing w here (by rw [phase]; rfl))
  | clear w here => exact h.cancelling id (List.mem_of_mem_erase hid)
  | _ => exact h.cancelling id hid

/-- An outstanding cancellation stays outstanding until it is stored. -/
theorem outstanding_step (h : l.Agrees) (act : Act c .additions l l') {id : String}
    (before : id ∈ l.cancelling) :
    id ∈ l'.cancelling ∨ l'.store.status? id = some .cancelled := by
  cases act with
  | storeCancel x store outstanding writes =>
    by_cases hne : id = x
    · exact Or.inr (hne ▸ writes.status?_self)
    · exact Or.inl ((List.mem_erase_of_ne hne).mpr before)
  | clear w here phase =>
    by_cases hne : id = w.task.id
    · exact Or.inr (hne ▸ h.clearing w here phase)
    · exact Or.inl ((List.mem_erase_of_ne hne).mpr before)
  | holdBack w failure remaining here => exact Or.inl (List.mem_append_left _ before)
  | _ => exact Or.inl before

/-! ## Workers -/

theorem requeueing_step (h : l.Agrees) (act : Act c .additions l l') :
    ∀ v ∈ l'.workers, v.phase.requeues = true → l'.store.status? v.task.id = some .pending := by
  intro v hv hp
  have hid : v.task.id ∈ l'.runningIds := (h.toOwned.step act).mem_runningIds hv
    (Phase.holds_of_requeues hp)
  -- The phase is an old one, whose task nobody else can have touched, or `pending` is just stored.
  cases h.origin act hv with
  | same w heir phase =>
    have wp : w.phase.requeues = true := by rw [phase, hp]
    rcases h.status_of_running act hid with ⟨-, same⟩ | ⟨new, -⟩ | ⟨pending, -⟩
    · exact same _ (heir.task ▸ h.requeueing w heir.here wp)
    · exact absurd (heir.task ▸ h.mem_runningIds heir.here (Phase.holds_of_requeues wp)) new
    · exact pending
  | handedBack w heir failure remaining attempt was phase stored => exact stored
  | moved w heir hs next => rw [next.quiet.2.1] at hp; cases hp
  | started w heir was phase =>
    rcases phase with ⟨_, phase⟩ | ⟨_, phase⟩ <;> rw [phase] at hp <;> cases hp
  | claimed seq phase => rw [phase] at hp; cases hp
  | heldBack w heir was phase => rw [phase] at hp; cases hp
  | lateStored w heir was phase => rw [phase] at hp; cases hp
  | ended w heir es phase => rw [phase] at hp; cases hp

theorem late_step (h : l.Agrees) (act : Act c .additions l l') :
    ∀ v ∈ l'.workers, v.phase.cancelsLate = true →
      v.task.id ∈ l'.cancelling ∨ l'.store.status? v.task.id = some .cancelled := by
  intro v hv hp
  have before {w : Worker} (heir : Heir l w v) (wp : w.phase.cancelsLate = true) :
      v.task.id ∈ l'.cancelling ∨ l'.store.status? v.task.id = some .cancelled := by
    rw [← heir.task]
    rcases h.late w heir.here wp with outstanding | cancelled
    · exact h.outstanding_step act outstanding
    · exact Or.inr (h.terminal_step act rfl cancelled)
  cases h.origin act hv with
  | same w heir phase => exact before heir (by rw [phase, hp])
  | moved w heir hs next => exact before heir (next.quiet.2.2.2 hp)
  | heldBack w heir was phase kept => exact Or.inl kept
  | started w heir was phase =>
    rcases phase with ⟨_, phase⟩ | ⟨_, phase⟩ <;> rw [phase] at hp <;> cases hp
  | claimed seq phase => rw [phase] at hp; cases hp
  | handedBack w heir failure remaining attempt was phase => rw [phase] at hp; cases hp
  | lateStored w heir was phase => rw [phase] at hp; cases hp
  | ended w heir es phase => rw [phase] at hp; cases hp

theorem clearing_step (h : l.Agrees) (act : Act c .additions l l') :
    ∀ v ∈ l'.workers, v.phase = .clearing → l'.store.status? v.task.id = some .cancelled := by
  intro v hv clears
  rcases (h.origin act hv).of_clearing clears with ⟨w, heir, before⟩ | ⟨stored, -⟩
  · rw [← heir.task]
    exact h.terminal_step act rfl (h.clearing w heir.here before)
  · exact stored

/-! ## What is forgotten -/

/-- Memory forgets a task whose end is stored, and one that its worker has let go of, which the store
then still has as running. -/
theorem forgets (h : l.Agrees) (act : Act c .additions l l') {id : String} (before : id ∈ l.tracked) :
    id ∈ l'.tracked ∨
      (∃ status, l'.store.status? id = some status ∧ status.isTerminal = true) ∨
      l'.store.status? id = some .running ∧
        ∃ hs, l'.history = hs ++ l.history ∧ .letGo id ∈ hs := by
  rw [mem_tracked] at before ⊢
  have others {x : String} (hne : id ≠ x) :
      id ∈ l.queuedIds ∨ id ∈ (l.release x).runningIds ∨ id ∈ l.cancelling :=
    before.imp_right (Or.imp_left fun before => mem_release.mpr ⟨before, hne⟩)
  cases act with
  | submit r store new pending put =>
    rcases before with before | before
    · exact Or.inl (Or.inl (mem_ids_append.mpr (Or.inl before)))
    · exact Or.inl (Or.inr before)
  | withdraw x store hqueued writes =>
    by_cases hne : id = x
    · exact Or.inr (Or.inl ⟨.cancelled, hne ▸ writes.status?_self, rfl⟩)
    · rcases before with before | before
      · have herased : id ∈ l.queuedIds.erase x := (List.mem_erase_of_ne hne).mpr before
        rw [queuedIds, erase_ids] at herased
        exact Or.inl (Or.inl herased)
      · exact Or.inl (Or.inr before)
  | tell r found first =>
    refine Or.inl (before.imp_right (Or.imp_left fun before => ?_))
    simpa only [runningIds, map_id_tell] using before
  | storeCancel x store outstanding writes =>
    by_cases hne : id = x
    · exact Or.inr (Or.inl ⟨.cancelled, hne ▸ writes.status?_self, rfl⟩)
    · exact Or.inl (before.imp_right (Or.imp_right (List.mem_erase_of_ne hne).mpr))
  | takePending | takeRunning =>
    rcases before with before | before
    · exact Or.inl (Or.inl (mem_ids_append.mpr (Or.inl before)))
    · exact Or.inl (Or.inr before)
  | claim task rest store head writes =>
    by_cases hne : id = task.id
    · exact Or.inl (Or.inr (Or.inl (by simp [runningIds, hne])))
    · rcases others hne with before | before | before
      · rw [queuedIds, head, List.map_cons, List.mem_cons] at before
        exact Or.inl (Or.inl (before.resolve_left hne))
      · refine Or.inl (Or.inr (Or.inl ?_))
        simp only [runningIds, List.map_append]
        exact List.mem_append_left _ before
      · exact Or.inl (Or.inr (Or.inr before))
  | finish w e attempt store here phase releases writes =>
    by_cases hne : id = w.task.id
    · have terminal := Ending.isTerminal_of_releases releases
      exact Or.inr (Or.inl ⟨e.status, hne ▸ writes.status?_self, terminal⟩)
    · exact Or.inl (others hne)
  | letGo w es here phase =>
    by_cases hne : id = w.task.id
    · subst hne
      obtain ⟨holds, requeues⟩ := Phase.holds_of_leaves phase
      exact Or.inr (Or.inr ⟨h.status_of_holds here holds requeues, [_, _], rfl, by simp⟩)
    · exact Or.inl (others hne)
  | requeue w failure remaining here phase =>
    by_cases hne : id = w.task.id
    · exact Or.inl (Or.inl (mem_ids_append.mpr (Or.inr hne)))
    · rcases others hne with before | before
      · exact Or.inl (Or.inl (mem_ids_append.mpr (Or.inl before)))
      · exact Or.inl (Or.inr before)
  | holdBack w failure remaining here phase =>
    by_cases hne : id = w.task.id
    · exact Or.inl (Or.inr (Or.inr (by simp [hne, setPhase, setWorker])))
    · refine Or.inl ((others hne).imp_right (Or.imp_right fun before => ?_))
      exact List.mem_append_left _ before
  | clear w here phase =>
    by_cases hne : id = w.task.id
    · exact Or.inr (Or.inl ⟨.cancelled, hne ▸ h.clearing w here phase, rfl⟩)
    · exact Or.inl (before.imp_right (Or.imp_right (List.mem_erase_of_ne hne).mpr))
  | _ => exact Or.inl before

/-- The status of a forgotten task is left alone, until a recovery queues it. -/
theorem forgotten_step (h : l.Agrees) (act : Act c .additions l l') {id : String} {status : Status}
    (forgotten : id ∉ l.tracked) (before : l.store.status? id = some status) :
    l'.store.status? id = some status ∨ id ∈ l'.queuedIds := by
  simp only [mem_tracked, not_or] at forgotten
  obtain ⟨notQueued, notRunning, notCancelling⟩ := forgotten
  have other {x : String} {status' : Status} {error : String} {store : Store}
      (writes : l.Writes x status' error store) (hne : id ≠ x) : store.status? id = some status := by
    rw [writes.status?_ne hne]
    exact before
  have notHeld {w : Worker} (here : w ∈ l.workers) (holds : w.phase.holds = true) :
      id ≠ w.task.id := by
    rintro rfl
    exact notRunning (h.mem_runningIds here holds)
  cases act with
  | edit store allowed =>
    obtain ⟨r, new, put⟩ := allowed
    exact Or.inl (status?_put_new new put before)
  | submit r store new pending put => exact Or.inl (status?_put_new new put before)
  | withdraw x store hqueued writes =>
    exact Or.inl (other writes fun heq => notQueued (heq ▸ hqueued))
  | storeCancel x store outstanding writes =>
    exact Or.inl (other writes fun heq => notCancelling (heq ▸ outstanding))
  | takeRunning r store _ _ _ running listed writes =>
    by_cases hne : id = r.id
    · exact Or.inr (mem_ids_append.mpr (Or.inr hne))
    · exact Or.inl (other writes hne)
  | claim task rest store head writes =>
    refine Or.inl (other writes ?_)
    rintro rfl
    exact notQueued (by simp [queuedIds, head])
  | finish w e attempt store here phase releases writes =>
    exact Or.inl (other writes (notHeld here (by rw [phase, Phase.holds_writing releases])))
  | handBack w failure remaining attempt store here phase writes =>
    exact Or.inl (other writes (notHeld here (by rw [phase]; rfl)))
  | lateStore w attempt store here phase writes =>
    by_cases hne : id = w.task.id
    · subst hne
      rcases h.late w here (by rw [phase]; rfl) with outstanding | cancelled
      · exact absurd outstanding notCancelling
      · rw [cancelled] at before
        cases before
        exact Or.inl writes.status?_self
    · exact Or.inl (other writes hne)
  | _ => exact Or.inl before

/-- A task enters the queue whenever it is noted that it does. -/
theorem enqueued_step (act : Act c .additions l l') {id : String}
    (after : .enqueued id ∈ l'.history) : .enqueued id ∈ l.history ∨ id ∈ l'.queuedIds := by
  obtain ⟨hs, hhistory, noted⟩ := act.noted
  rw [hhistory] at after
  rcases List.mem_append.mp after with new | old
  · cases noted _ new with
    | outward x h => cases h
    | enqueued id queued => exact Or.inr queued
  · exact Or.inl old

theorem pending_step (h : l.Agrees) (act : Act c .additions l l') : ∀ id, .enqueued id ∈ l'.history →
    l'.store.status? id = some .pending → id ∈ l'.tracked := by
  intro id henqueued after
  rcases enqueued_step act henqueued with henqueued | hqueued
  · by_cases tracked : id ∈ l.tracked
    · rcases h.forgets act tracked with tracked | ⟨status, ended, terminal⟩ | ⟨running, -⟩
      · exact tracked
      · rw [ended] at after
        cases after
        cases terminal
      · rw [running] at after
        cases after
    · -- A forgotten task was not pending, and only a recovery, which queues it, makes it so.
      obtain ⟨status, before⟩ := h.stored id henqueued
      rcases h.forgotten_step act tracked before with same | hqueued
      · rw [same] at after
        cases after
        exact absurd (h.pending id henqueued before) tracked
      · exact mem_tracked.mpr (Or.inl hqueued)
  · exact mem_tracked.mpr (Or.inl hqueued)

/-- Everything that can happen, as long as nobody else touches a record, keeps memory and store in
agreement. -/
theorem step (h : l.Agrees) (act : Act c .additions l l') : l'.Agrees where
  toOwned := h.toOwned.step act
  keyed := h.keyed_step act
  stored := by
    intro id after
    rcases enqueued_step act after with before | hqueued
    · exact h.stored_step act (h.stored id before)
    · exact ⟨_, h.queued_step act id hqueued⟩
  queued := h.queued_step act
  running := h.running_step act
  cancelling := h.cancelling_step act
  requeueing := h.requeueing_step act
  late := h.late_step act
  clearing := h.clearing_step act
  pending := h.pending_step act

theorem init (c : Setup) {disk : Disk} (keyed : disk.store.Keyed) :
    (State.init c disk).ledger.Agrees where
  toOwned := Owned.init c disk
  keyed := keyed
  stored := by simp [State.ledger, State.init]
  queued := by simp [State.ledger, State.init, queuedIds]
  running := by simp [State.ledger, State.init, runningIds]
  cancelling := by simp [State.ledger, State.init]
  requeueing := by simp [State.ledger, State.init]
  late := by simp [State.ledger, State.init]
  clearing := by simp [State.ledger, State.init]
  pending := by simp [State.ledger, State.init]

theorem calls (h : l.Agrees) (calls : List (List Effect)) : ({ l with calls } : Ledger).Agrees :=
  { h with toOwned := h.toOwned.calls calls }

theorem acts (h : l.Agrees) (acts : Acts c .additions l l') : l'.Agrees :=
  acts.preserves (fun _ _ h act => h.step act) h

end Agrees

end Ledger

end Courier.Scheduler
