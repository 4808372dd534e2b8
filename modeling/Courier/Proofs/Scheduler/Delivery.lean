/-
# Courier.Proofs.Scheduler.Delivery -- a payload on its way to the fetcher and the storage

An operator names a source and a destination. They are written into a payload, the payload into a row, and
the row is all that a scheduler finds: it copies the payload into the queue, the queue entry into a worker,
and the worker reads it when its start has been reported. `Ledger.Carries` says that at each of these places
there is the payload of the task, and `Ledger.Serves` that a worker of the task has asked the fetcher and the
storage for what its phase says (`Errands`), and for nothing else.

`payload_delivered` puts this together with `Transfer.decode_encode`, from the operator's command to the calls,
over any lives of schedulers in between.
-/
import Courier.Proofs.Json.Records
import Courier.Proofs.Scheduler.Crash
import Courier.Proofs.Scheduler.Deletions
import Courier.Proofs.Scheduler.Records

namespace Courier.Scheduler

/-! ## Errands -/

/-- What a worker asks of the fetcher and of the storage. -/
inductive Errand where
  | fetch (source : String)
  | put (destination : String)
deriving DecidableEq, Repr

/-- The errand of the worker with this number that is noted. -/
def Happening.errand? (seq : Nat) : Happening → Option Errand
  | .fetched n source => if n = seq then some (.fetch source) else none
  | .put n destination => if n = seq then some (.put destination) else none
  | _ => none

namespace Ledger

/-- What the worker with this number has asked for so far, the first errand first. -/
def errands (l : Ledger) (seq : Nat) : List Errand := (l.history.filterMap (Happening.errand? seq)).reverse

end Ledger

/-- What the worker with this number has asked for so far, the first errand first. -/
def State.errands (s : State) (seq : Nat) : List Errand := s.ledger.errands seq

variable {c : Setup} {E : Edits} {l l' : Ledger} {t : Transfer}

theorem Ledger.errands_note (l : Ledger) (hs : List Happening) (seq : Nat) :
    (l.note hs).errands seq = l.errands seq ++ (hs.filterMap (Happening.errand? seq)).reverse := by
  simp only [errands, note, List.filterMap_append, List.reverse_append]

/-- An errand bears the number of the worker that goes on with it. -/
theorem Next.errand?_of_ne {w : Worker} {p : Phase} {hs : List Happening} (next : Next c l w p hs) {seq : Nat}
    (other : w.seq ≠ seq) : hs.filterMap (Happening.errand? seq) = [] := by
  cases next <;> simp [Happening.errand?, other]

/-- A worker does an errand when it goes on, and nothing else is one. -/
theorem Act.errands_cases (act : Act c E l l') (seq : Nat) :
    l'.errands seq = l.errands seq ∨
      ∃ w p hs, w ∈ l.workers ∧ w.seq = seq ∧ Next c l w p hs ∧ l' = (l.note hs).setPhase w.seq p := by
  cases act with
  | advance w p hs here next =>
    by_cases same : w.seq = seq
    · exact Or.inr ⟨w, p, hs, here, same, next, rfl⟩
    · left
      show (l.note hs).errands seq = _
      rw [Ledger.errands_note, next.errand?_of_ne same, List.reverse_nil, List.append_nil]
  | callEffect call e => cases e <;> exact Or.inl rfl
  | workerEffect w e => cases e <;> exact Or.inl rfl
  | _ => exact Or.inl rfl

/-- How far a worker of `l'` has come through an act from `l`. -/
inductive Stride (c : Setup) (l l' : Ledger) (v : Worker) : Prop
  | same (w : Worker) (heir : Heir l w v) (phase : w.phase = v.phase) (idle : l'.errands v.seq = l.errands v.seq)
  | claimed (seq : v.seq = l.nextSeq) (phase : v.phase = .claimed) (q : Queued) (queued : q ∈ l.queue)
      (task : v.task = { q with attempts := q.attempts + 1 }) (idle : l'.errands v.seq = l.errands v.seq)
  | started (w : Worker) (heir : Heir l w v) (was : w.phase = .claimed) (phase : v.phase = openingPhase c v.task)
      (idle : l'.errands v.seq = l.errands v.seq)
  | moved (w : Worker) (heir : Heir l w v) (hs : List Happening) (next : Next c l w v.phase hs)
      (errands : l'.errands v.seq = l.errands v.seq ++ (hs.filterMap (Happening.errand? v.seq)).reverse)
  | finished (w : Worker) (heir : Heir l w v) (was : w.phase.isOver = true) (phase : v.phase.isOver = true)
      (idle : l'.errands v.seq = l.errands v.seq)

theorem Ledger.Numbered.stride (h : l.Numbered) (act : Act c E l l') {v : Worker} (hv : v ∈ l'.workers) :
    Stride c l l' v := by
  cases act with
  | tell r found first =>
    obtain ⟨w, hw, rfl⟩ := List.mem_map.mp hv
    split
    · exact .same w ⟨hw, rfl, rfl, fun _ => rfl, id⟩ rfl rfl
    · exact .same w ⟨hw, rfl, rfl, id, id⟩ rfl rfl
  | stopAll =>
    obtain ⟨w, hw, rfl⟩ := List.mem_map.mp hv
    exact .same w ⟨hw, rfl, rfl, fun _ => rfl, id⟩ rfl rfl
  | giveUpAll =>
    obtain ⟨w, hw, rfl⟩ := List.mem_map.mp hv
    exact .same w ⟨(List.mem_filter.mp hw).1, rfl, rfl, id, fun _ => rfl⟩ rfl rfl
  | vanish w => exact .same v ⟨(List.mem_filter.mp hv).1, rfl, rfl, id, id⟩ rfl rfl
  | claim task rest store head =>
    rcases List.mem_append.mp hv with hv | hv
    · exact .same v ⟨hv, rfl, rfl, id, id⟩ rfl rfl
    · obtain rfl := List.mem_singleton.mp hv
      exact .claimed rfl rfl task (head ▸ List.mem_cons_self) rfl rfl
  | start w now here phase =>
    rcases h.heir_setWorker here rfl rfl rfl rfl hv with ⟨x, heir, same⟩ | ⟨rfl, heir⟩
    · exact .same x heir same rfl
    · exact .started w heir phase rfl rfl
  | advance w p hs here next =>
    rcases mem_setWorker hv with ⟨hv, other⟩ | ⟨x, hx, seq, rfl⟩
    · refine .same v ⟨hv, rfl, rfl, id, id⟩ rfl ?_
      show (l.note hs).errands v.seq = _
      rw [errands_note, next.errand?_of_ne (Ne.symm other), List.reverse_nil, List.append_nil]
    · obtain rfl := h.worker_eq hx here seq
      exact .moved x ⟨here, rfl, rfl, id, id⟩ hs next (l.errands_note hs x.seq)
  | workerEffect w e es here phase =>
    have idle : (((l.note e.happenings).setPhase w.seq (.effects es)).errands v.seq) = l.errands v.seq := by
      cases e <;> rfl
    rcases h.heir_setWorker here rfl rfl rfl rfl hv with ⟨x, heir, same⟩ | ⟨rfl, heir⟩
    · exact .same x heir same idle
    · exact .finished w heir (by rw [phase]; rfl) rfl idle
  | callEffect call e => cases e <;> exact .same v ⟨hv, rfl, rfl, id, id⟩ rfl rfl
  | finish w e attempt store here phase releases =>
    rcases h.heir_setWorker here rfl rfl rfl rfl hv with ⟨x, heir, same⟩ | ⟨rfl, heir⟩
    · exact .same x heir same rfl
    · exact .finished w heir (by rw [phase]; rfl) (by cases e <;> rfl) rfl
  | letGo w es here phase =>
    rcases h.heir_setWorker here rfl rfl rfl rfl hv with ⟨x, heir, same⟩ | ⟨rfl, heir⟩
    · exact .same x heir same rfl
    · exact .finished w heir (by rcases phase with phase | phase <;> rw [phase] <;> rfl) rfl rfl
  | handBack w failure remaining attempt store here phase | lateStore w attempt store here phase
  | requeue w failure remaining here phase | holdBack w failure remaining here phase | clear w here phase =>
    rcases h.heir_setWorker here rfl rfl rfl rfl hv with ⟨x, heir, same⟩ | ⟨rfl, heir⟩
    · exact .same x heir same rfl
    · exact .finished w heir (by rw [phase]; rfl) rfl rfl
  | _ => exact .same v ⟨hv, rfl, rfl, id, id⟩ rfl rfl

/-! ## Where the payload is -/

/-- What was put under an id is found there. -/
theorem row?_of_put {store after : Store} {r : Record} (put : store.put r = .ok after) :
    after.row? r.id = some r.row := by
  rw [Store.row?_put put, if_pos rfl]

/-- Records of other tasks are written, and any is deleted. -/
def Edits.others (id : String) : Edits := fun l store =>
  (∃ r, r.id ≠ id ∧ l.store.put r = .ok store) ∨ ∃ x, store = (l.store.delete x).2

/-- Wherever there is something of the task, it has this kind and this payload. -/
structure Ledger.Carries (id kind : String) (payload : Bytes) (l : Ledger) : Prop where
  keyed : l.store.Keyed
  stored : ∀ row, l.store.row? id = some row → row.kind = kind ∧ row.payload = payload
  queued : ∀ q ∈ l.queue, q.id = id → q.kind = kind ∧ q.payload = payload
  held : ∀ w ∈ l.workers, w.task.id = id → w.task.kind = kind ∧ w.task.payload = payload

namespace Ledger.Carries

variable {id kind : String} {payload : Bytes}

theorem keyed_step (h : l.Carries id kind payload) (act : Act c (.others id) l l') : l'.store.Keyed := by
  rcases act.store_cases with same | (⟨r, -, put⟩ | ⟨x, deleted⟩) | ⟨x, status, error, writes, -⟩
  · exact same.symm ▸ h.keyed
  · exact h.keyed.put put
  · exact deleted.symm ▸ h.keyed.delete x
  · exact writes.keyed h.keyed

/-- A row keeps its kind and its payload as long as it is there. -/
theorem stored_step (h : l.Carries id kind payload) (act : Act c (.others id) l l') :
    ∀ row, l'.store.row? id = some row → row.kind = kind ∧ row.payload = payload := by
  intro row found
  rcases act.store_cases with same | (⟨r, other, put⟩ | ⟨x, deleted⟩) | ⟨x, status, error, ⟨now, updated⟩, -⟩
  · exact h.stored row (same ▸ found)
  · rw [Store.row?_put put, if_neg (Ne.symm other)] at found
    exact h.stored row found
  · by_cases other : id = x
    · -- What is found after the deletion of the task was not deleted.
      subst other
      rw [deleted] at found
      have same := Store.delete_of_mem_ids (Store.mem_ids_of_row? found)
      exact h.stored row (same ▸ found)
    · rw [deleted, Store.row?_delete_of_ne other] at found
      exact h.stored row found
  · rw [Store.row?_updateStatus updated] at found
    obtain ⟨before, known, rfl⟩ := Option.map_eq_some_iff.mp found
    split <;> exact h.stored before known

theorem listed (h : l.Carries id kind payload) {r : Record}
    (listed : l.store.Keyed → l.store.row? r.id = some r.row) (same : r.id = id) :
    r.kind = kind ∧ r.payload = payload := by
  have found := listed h.keyed
  rw [same] at found
  exact h.stored r.row found

/-- A record that is put under a new id by somebody else is another task's. -/
theorem submitted_ne {r : Record} {store : Store} (new : l.isNew r.id) (put : l.store.put r = .ok store)
    (allowed : Edits.others id l store) : r.id ≠ id := by
  intro same
  have after : store.row? id = some r.row := same ▸ row?_of_put put
  have before : l.store.row? id = none := Store.lookup_of_notMem (same ▸ new.1)
  rcases allowed with ⟨r', other, put'⟩ | ⟨x, deleted⟩
  · rw [Store.row?_put put', if_neg (Ne.symm other), before] at after
    cases after
  · have known := (Store.ids_delete l.store x).subset (deleted ▸ Store.mem_ids_of_row? after)
    exact new.1 (same ▸ known)

theorem queued_step (h : l.Carries id kind payload) (act : Act c (.others id) l l') :
    ∀ q ∈ l'.queue, q.id = id → q.kind = kind ∧ q.payload = payload := by
  intro q hq hid
  cases act with
  | submit r store new pending put allowed =>
    rcases List.mem_append.mp hq with hq | hq
    · exact h.queued q hq hid
    · obtain rfl := List.mem_singleton.mp hq
      exact absurd hid (submitted_ne new put allowed)
  | takePending r notHeld notRunning notQueued pending listed
  | takeRunning r store notHeld notRunning notQueued running listed =>
    rcases List.mem_append.mp hq with hq | hq
    · exact h.queued q hq hid
    · obtain rfl := List.mem_singleton.mp hq
      exact h.listed listed hid
  | withdraw x => exact h.queued q (List.mem_of_mem_eraseP hq) hid
  | claim task rest store head => exact h.queued q (head ▸ List.mem_cons_of_mem task hq) hid
  | requeue w failure remaining here =>
    rcases List.mem_append.mp hq with hq | hq
    · exact h.queued q hq hid
    · obtain rfl := List.mem_singleton.mp hq
      exact h.held w here hid
  | _ => exact h.queued q hq hid

theorem held_step (h : l.Carries id kind payload) (numbered : l.Numbered) (act : Act c (.others id) l l') :
    ∀ w ∈ l'.workers, w.task.id = id → w.task.kind = kind ∧ w.task.payload = payload := by
  intro v hv hid
  rcases (numbered.origin act hv).heir_or_claimed with ⟨w, heir⟩ | ⟨-, -, q, hq, task⟩
  · rw [← heir.task] at hid ⊢
    exact h.held w heir.here hid
  · rw [task] at hid ⊢
    exact h.queued q hq hid

theorem step (h : l.Carries id kind payload) (numbered : l.Numbered) (act : Act c (.others id) l l') :
    l'.Carries id kind payload where
  keyed := h.keyed_step act
  stored := h.stored_step act
  queued := h.queued_step act
  held := h.held_step numbered act

end Ledger.Carries

/-! ## What a worker has asked for -/

/-- The errands of a worker with this transfer, phase by phase: the fetcher is asked once and first, and then the
storage once. A worker that was told to stop may have asked for less. -/
inductive Errands (t : Transfer) (told : Bool) : Phase → List Errand → Prop
  | claimed : Errands t told .claimed []
  | opening : Errands t told (.opening t) []
  | fetching : Errands t told (.fetching t) [.fetch t.source]
  | storing : Errands t told (.storing t) [.fetch t.source, .put t.destination]
  | stored (result : Except Failure Nat) : Errands t told (.stored t result) [.fetch t.source, .put t.destination]
  | rollingBack : Errands t told (.rollingBack t) [.fetch t.source, .put t.destination]
  | finished {p : Phase} (ended : p.isOver = true) {es : List Errand}
      (done : es = [.fetch t.source] ∨ es = [.fetch t.source, .put t.destination] ∨ es = [] ∧ told = true) :
      Errands t told p es

namespace Errands

variable {told : Bool} {p : Phase} {es : List Errand}

/-- Nothing else is asked for, however the attempt goes. -/
theorem isPrefix (h : Errands t told p es) : es <+: [.fetch t.source, .put t.destination] := by
  cases h with
  | claimed | opening => exact List.nil_prefix
  | fetching => exact ⟨[.put t.destination], rfl⟩
  | storing | stored | rollingBack => exact List.prefix_rfl
  | finished ended done =>
    rcases done with rfl | rfl | ⟨rfl, -⟩
    · exact ⟨[.put t.destination], rfl⟩
    · exact List.prefix_rfl
    · exact List.nil_prefix

theorem mono (h : Errands t told p es) {later : Bool} (stays : told = true → later = true) :
    Errands t later p es := by
  cases h with
  | claimed => exact .claimed
  | opening => exact .opening
  | fetching => exact .fetching
  | storing => exact .storing
  | stored result => exact .stored result
  | rollingBack => exact .rollingBack
  | finished ended done => exact .finished ended (done.imp_right (Or.imp_right (And.imp_right stays)))

/-- A worker that is past its opening and was not told to stop has asked the fetcher. -/
theorem fetched (h : Errands t told p es) (untold : told = false) (claimed : p ≠ .claimed)
    (opening : ∀ u, p ≠ .opening u) : .fetch t.source ∈ es := by
  cases h with
  | claimed => exact absurd rfl claimed
  | opening => exact absurd rfl (opening t)
  | fetching | storing | stored | rollingBack => exact List.mem_cons_self
  | finished ended done =>
    rcases done with rfl | rfl | ⟨-, told⟩
    · exact List.mem_cons_self
    · exact List.mem_cons_self
    · rw [untold] at told
      cases told

/-- An attempt that has come to a result stays there. -/
theorem of_over (h : Errands t told p es) (was : p.isOver = true) {q : Phase} (ended : q.isOver = true) :
    Errands t told q es := by
  cases h with
  | finished _ done => exact .finished ended done
  | _ => cases was

/-- A worker that goes on asks for what comes next. -/
theorem next {w : Worker} {hs : List Happening} (h : Errands t w.told w.phase es) (next : Next c l w p hs) :
    Errands t w.told p (es ++ (hs.filterMap (Happening.errand? w.seq)).reverse) := by
  -- A phase that says what is asked for next leaves no choice of what was asked for before.
  cases next with
  | fetch u phase =>
    rw [phase] at h
    cases h with
    | opening => simpa [Happening.errand?] using Errands.fetching
    | finished ended => cases ended
  | fetched u phase =>
    rw [phase] at h
    cases h with
    | fetching => simpa [Happening.errand?] using Errands.storing
    | finished ended => cases ended
  | stop u phase told =>
    rw [told] at h ⊢
    rcases phase with phase | phase <;> rw [phase] at h
    · cases h with
      | opening => exact .finished rfl (Or.inr (Or.inr ⟨rfl, rfl⟩))
      | finished ended => cases ended
    · cases h with
      | fetching => exact .finished rfl (Or.inl rfl)
      | finished ended => cases ended
  | unfetched u failure phase =>
    rw [phase] at h
    cases h with
    | fetching => exact .finished rfl (Or.inl rfl)
    | finished ended => cases ended
  | stored u result phase =>
    rw [phase] at h
    cases h with
    | storing => exact .stored result
    | finished ended => cases ended
  | judge u result phase =>
    rw [phase] at h
    cases h with
    | stored =>
      rcases storedPhase_cases (c.kinds.get? w.task.kind) w.told t result with
        after | after | ⟨-, after⟩ <;> rw [after]
      · exact .rollingBack
      · exact .finished rfl (Or.inr (Or.inl rfl))
      · exact .finished rfl (Or.inr (Or.inl rfl))
    | finished ended => cases ended
  | rolledBack u phase =>
    rw [phase] at h
    cases h with
    | rollingBack => exact .finished rfl (Or.inr (Or.inl rfl))
    | finished ended => cases ended
  | settle result millis phase =>
    refine (List.append_nil es).symm ▸ h.of_over (by rw [phase]; rfl) ?_
    rcases endedPhase_cases w.told w.task.remaining millis result with
      after | ⟨bytes, -, -, after⟩ | ⟨failure, -, -, ⟨left, -, after⟩ | ⟨-, after⟩⟩ <;> rw [after] <;> rfl
  | givenUp e attempt phase =>
    exact (List.append_nil es).symm ▸ h.of_over (by rw [phase]; rfl) (by cases e <;> rfl)
  | interrupted phase | cancelled phase | refused e attempt phase | again e attempt phase =>
    exact (List.append_nil es).symm ▸ h.of_over (by rw [phase]; rfl) rfl

end Errands

/-- A task of a registered kind with the payload of a transfer is opened as this transfer. -/
theorem openingPhase_of_payload {task : Queued} (registered : c.kinds.contains task.kind = true)
    (payload : task.payload = t.encode) : openingPhase c task = .opening t := by
  obtain ⟨handler, found⟩ := Option.isSome_iff_exists.mp registered
  simp only [openingPhase, found, payload, Transfer.decode_encode]

/-- Nobody has asked for anything under a number that is still to be given. -/
def Ledger.AsksInOrder (l : Ledger) : Prop := ∀ seq, l.nextSeq ≤ seq → l.errands seq = []

theorem Ledger.AsksInOrder.step (h : l.AsksInOrder) (numbered : l.Numbered) (act : Act c E l l') :
    l'.AsksInOrder := by
  intro seq later
  have next : l.nextSeq ≤ l'.nextSeq := by
    rcases act.seqs with ⟨-, next⟩ | ⟨-, next⟩ <;> rw [next]
    exact Nat.le_succ _
  rcases act.errands_cases seq with same | ⟨w, p, hs, here, rfl, -⟩
  · rw [same, h seq (next.trans later)]
  · exact absurd (numbered.seqs_lt w here) (Nat.not_lt.mpr (next.trans later))

/-- Every worker of the task has asked for what its phase says. -/
structure Ledger.Serves (id : String) (t : Transfer) (l : Ledger) : Prop where
  numbered : l.Numbered
  inOrder : l.AsksInOrder
  errands : ∀ w ∈ l.workers, w.task.id = id → Errands t w.told w.phase (l.errands w.seq)

namespace Ledger.Serves

variable {id kind : String}

theorem errands_step (h : l.Serves id t) (carries : l.Carries id kind t.encode)
    (registered : c.kinds.contains kind = true) (act : Act c (.others id) l l') :
    ∀ v ∈ l'.workers, v.task.id = id → Errands t v.told v.phase (l'.errands v.seq) := by
  intro v hv hid
  have held := carries.held_step h.numbered act v hv hid
  have before {w : Worker} (heir : Heir l w v) : Errands t v.told w.phase (l.errands v.seq) :=
    heir.seq ▸ (h.errands w heir.here (heir.task ▸ hid)).mono heir.told
  cases h.numbered.stride act hv with
  | same w heir phase idle =>
    rw [idle, ← phase]
    exact before heir
  | claimed seq phase q queued task idle =>
    rw [idle, seq, h.inOrder _ (Nat.le_refl _), phase]
    exact .claimed
  | started w heir was phase idle =>
    have first := before heir
    rw [was] at first
    rw [idle, phase, openingPhase_of_payload (held.1 ▸ registered) held.2]
    generalize l.errands v.seq = es at first ⊢
    cases first with
    | claimed => exact .opening
    | finished ended => cases ended
  | moved w heir hs next errands =>
    have asked := ((h.errands w heir.here (heir.task ▸ hid)).next next).mono heir.told
    rw [heir.seq, ← errands] at asked
    exact asked
  | finished w heir was phase idle =>
    rw [idle]
    exact (before heir).of_over was phase

theorem step (h : l.Serves id t) (carries : l.Carries id kind t.encode)
    (registered : c.kinds.contains kind = true) (act : Act c (.others id) l l') : l'.Serves id t where
  numbered := h.numbered.step act
  inOrder := h.inOrder.step h.numbered act
  errands := h.errands_step carries registered act

end Ledger.Serves

/-! ## A task that is filed -/

/-- Only tasks that have been queued are worked on. -/
structure Ledger.Employs (l : Ledger) : Prop where
  owned : l.Owned
  inOrder : l.AsksInOrder
  enqueued : ∀ w ∈ l.workers, .enqueued w.task.id ∈ l.history

namespace Ledger.Employs

theorem init (c : Setup) (disk : Disk) : (State.init c disk).ledger.Employs where
  owned := .init c disk
  inOrder := fun _ _ => rfl
  enqueued := fun _ hw => absurd hw List.not_mem_nil

theorem step (h : l.Employs) (act : Act c E l l') : l'.Employs where
  owned := h.owned.step act
  inOrder := h.inOrder.step h.owned.numbered act
  enqueued := by
    obtain ⟨hs, history⟩ := act.history
    rw [history]
    intro v hv
    refine List.mem_append_right hs ?_
    rcases (h.owned.origin act hv).heir_or_claimed with ⟨w, heir⟩ | ⟨-, queued, -⟩
    · exact heir.task ▸ h.enqueued w heir.here
    · exact h.owned.tracked_enqueued _ (mem_tracked.mpr (Or.inl queued))

variable {id kind : String} {payload : Bytes}

/-- A new record: there is nothing of the task but its row. -/
theorem carries_put (h : l.Employs) (keyed : l.store.Keyed) {title : String} {now : Int} (new : l.isNew id)
    {store : Store} (put : l.store.put (.new id kind payload title now) = .ok store) :
    (l.over store).Carries id kind payload where
  keyed := keyed.put put
  stored := by
    intro row found
    have own : store.row? id = some (Record.new id kind payload title now).row := row?_of_put put
    cases own.symm.trans found
    exact ⟨rfl, rfl⟩
  queued := by
    intro q hq same
    have tracked : q.id ∈ l.tracked := mem_tracked.mpr (Or.inl (List.mem_map_of_mem hq))
    exact absurd (same ▸ h.owned.tracked_enqueued _ tracked) new.2
  held := fun w hw same => absurd (same ▸ h.enqueued w hw) new.2

theorem serves_put (h : l.Employs) (new : l.isNew id) (store : Store) (t : Transfer) :
    (l.over store).Serves id t where
  numbered := h.owned.numbered.of_eq rfl rfl rfl
  inOrder := h.inOrder
  errands := fun w hw same => absurd (same ▸ h.enqueued w hw) new.2

end Ledger.Employs

/-! ## Runs -/

/-- Submissions come under new ids, and none of them and no record from outside is the task itself. -/
def Move.FreshBeside (id : String) (s : State) (m : Move) : Prop := m.Fresh s ∧ m.brings? ≠ some id

instance (id : String) (s : State) (m : Move) : Decidable (m.FreshBeside id s) :=
  inferInstanceAs (Decidable (_ ∧ _))

namespace State

variable {id kind : String} {payload : Bytes} {s : State}

theorem acts_of_freshBeside {m : Move} (fresh : m.FreshBeside id s) :
    Acts c (.others id) s.ledger (s.step c m).ledger := by
  refine step_acts (s.step_act m ?_ ?_ ?_)
  · rintro x kind payload title rfl
    exact ⟨fresh.1, fun store put => Or.inl ⟨_, fun same => fresh.2 (congrArg some same), put⟩⟩
  · rintro r store rfl put
    exact Or.inl ⟨r, fun same => fresh.2 (congrArg some same), put⟩
  · rintro x rfl
    exact Or.inr ⟨x, rfl⟩

theorem run_acts_of_freshBeside {ms : List Move} (run : s.Follows c (Move.FreshBeside id) ms) :
    Acts c (.others id) s.ledger (s.run c ms).ledger :=
  run.acts fun _ _ fresh => acts_of_freshBeside fresh

/-- The payload of the task is carried through any run, -/
theorem carries_run (numbered : s.ledger.Numbered) (h : s.ledger.Carries id kind payload) {ms : List Move}
    (run : s.Follows c (Move.FreshBeside id) ms) : (s.run c ms).ledger.Carries id kind payload :=
  ((run_acts_of_freshBeside run).preserves (P := fun l => l.Numbered ∧ l.Carries id kind payload)
    (fun _ _ h act => ⟨h.1.step act, h.2.step h.1 act⟩) ⟨numbered, h⟩).2

/-- and its workers ask for what it says. -/
theorem serves_run (h : s.ledger.Serves id t) (carries : s.ledger.Carries id kind t.encode)
    (registered : c.kinds.contains kind = true) {ms : List Move} (run : s.Follows c (Move.FreshBeside id) ms) :
    (s.run c ms).ledger.Serves id t :=
  ((run_acts_of_freshBeside run).preserves (P := fun l => l.Serves id t ∧ l.Carries id kind t.encode)
    (fun _ _ h act => ⟨h.1.step h.2 registered act, h.2.step h.1.numbered act⟩) ⟨h, carries⟩).1

theorem employs_run (c : Setup) (disk : Disk) {ms : List Move} (run : (State.init c disk).Follows c Move.Fresh ms) :
    ((State.init c disk).run c ms).ledger.Employs :=
  (run_acts_of_fresh run).preserves (fun _ _ h act => h.step act) (.init c disk)

/-! ## The steps of a worker -/

/-- From its claim on a worker that nobody stops opens the transfer, asks the fetcher, and asks the storage once the
fetcher has answered. -/
theorem opens (h : s.ledger.Serves id t) (carries : s.ledger.Carries id kind t.encode)
    (registered : c.kinds.contains kind = true) {w : Worker} (here : w ∈ s.workers) (task : w.task.id = id)
    (phase : w.phase = .claimed) :
    { w with phase := .opening t, started := s.now } ∈ (s.step c (.worker w.seq .go)).workers := by
  have found : (s.workers.find? fun x => x.seq = w.seq) = some w := h.numbered.found here
  obtain ⟨kindOf, payload⟩ := carries.held w here task
  have opened : openingPhase c w.task = .opening t := openingPhase_of_payload (kindOf ▸ registered) payload
  simp only [step, stepWorker, found, phase]
  refine List.mem_map.mpr ⟨w, here, ?_⟩
  simp only [if_true, opened]

theorem asks (h : s.ledger.Serves id t) {w : Worker} (here : w ∈ s.workers) (task : w.task.id = id) {u : Transfer}
    (phase : w.phase = .opening u) :
    { w with phase := .fetching t } ∈ (s.step c (.worker w.seq .go)).workers ∧
      (s.step c (.worker w.seq .go)).errands w.seq = [.fetch t.source] := by
  have found : (s.workers.find? fun x => x.seq = w.seq) = some w := h.numbered.found here
  have before := h.errands w here task
  rw [phase] at before
  generalize asked : s.ledger.errands w.seq = es at before
  cases before with
  | finished ended => cases ended
  | opening =>
    simp only [step, stepWorker, found, phase]
    refine ⟨List.mem_map.mpr ⟨w, here, if_pos rfl⟩, ?_⟩
    show (s.ledger.note [.fetched w.seq t.source]).errands w.seq = _
    rw [Ledger.errands_note, asked]
    simp [Happening.errand?]

theorem hands (h : s.ledger.Serves id t) {w : Worker} (here : w ∈ s.workers) (task : w.task.id = id) {u : Transfer}
    (phase : w.phase = .fetching u) :
    { w with phase := .storing t } ∈ (s.step c (.worker w.seq (.fetched (.ok ())))).workers ∧
      (s.step c (.worker w.seq (.fetched (.ok ())))).errands w.seq = [.fetch t.source, .put t.destination] := by
  have found : (s.workers.find? fun x => x.seq = w.seq) = some w := h.numbered.found here
  have before := h.errands w here task
  rw [phase] at before
  generalize asked : s.ledger.errands w.seq = es at before
  cases before with
  | finished ended => cases ended
  | fetching =>
    simp only [step, stepWorker, found, phase]
    refine ⟨List.mem_map.mpr ⟨w, here, if_pos rfl⟩, ?_⟩
    show (s.ledger.note [.put w.seq t.destination]).errands w.seq = _
    rw [Ledger.errands_note, asked]
    simp [Happening.errand?]

/-- A recovery finds the task with its payload, -/
theorem recover_carries (numbered : s.ledger.Numbered) (carries : s.ledger.Carries id kind payload) {status : Status}
    (stored : s.disk.store.status? id = some status) (unfinished : status = .pending ∨ status = .running)
    (forgotten : id ∉ s.ledger.tracked) :
    ∃ q ∈ (s.run c [.heal, .recover]).queue, q.id = id ∧ q.kind = kind ∧ q.payload = payload := by
  have after : (s.run c [.heal, .recover]).ledger.Carries id kind payload :=
    carries_run numbered carries ⟨⟨trivial, nofun⟩, ⟨trivial, nofun⟩, trivial⟩
  have queued : id ∈ (s.run c [.heal, .recover]).ledger.queuedIds :=
    recover_queues (s := { s with disk := s.disk.heal }) rfl stored unfinished forgotten
  obtain ⟨q, hq, hid⟩ := List.mem_map.mp queued
  exact ⟨q, hq, hid, after.queued q hq hid⟩

/-- and a claim of the task makes a worker that has it and has not been told to stop. -/
theorem claim_carries (carries : s.ledger.Carries id kind payload) {q : Queued} {rest : List Queued}
    (head : s.queue = q :: rest) (task : q.id = id) (taken : s.claimNext.1 = .task) :
    ∃ w ∈ s.claimNext.2.workers, w.task.id = id ∧ w.task.kind = kind ∧ w.task.payload = payload ∧
      w.phase = .claimed ∧ w.told = false := by
  have here : q ∈ s.ledger.queue := by
    show q ∈ s.queue
    rw [head]
    exact List.mem_cons_self
  obtain ⟨kindOf, payloadOf⟩ := carries.queued q here task
  unfold claimNext at taken ⊢
  simp only [head] at taken ⊢
  rcases s.writeStatus_cases q.id .running "" with ⟨disk, hw, -⟩ | ⟨e, disk, hw, -⟩ <;> rw [hw] at taken ⊢
  · exact ⟨_, List.mem_append_right _ List.mem_cons_self, task, kindOf, payloadOf, rfl, rfl⟩
  · cases taken

/-- What a scheduler does with a transfer that was filed as the task `id`. -/
structure Delivers (c : Setup) (id kind : String) (t : Transfer) (s : State) : Prop where
  /-- The row of the task, its queue entries and its workers have its kind and its payload. -/
  carries : s.ledger.Carries id kind t.encode
  /-- A recovery that the disk lets through queues the task, -/
  recovers : ∀ status, s.disk.store.status? id = some status → status = .pending ∨ status = .running →
    id ∉ s.ledger.tracked →
    ∃ q ∈ (s.run c [.heal, .recover]).queue, q.id = id ∧ q.kind = kind ∧ q.payload = t.encode
  /-- a claim makes a worker of it, -/
  claims : ∀ q rest, s.queue = q :: rest → q.id = id → s.claimNext.1 = .task →
    ∃ w ∈ s.claimNext.2.workers, w.task.id = id ∧ w.task.kind = kind ∧ w.task.payload = t.encode ∧
      w.phase = .claimed ∧ w.told = false
  /-- the worker reads the transfer when it reports its start, -/
  opens : ∀ w ∈ s.workers, w.task.id = id → w.phase = .claimed →
    { w with phase := .opening t, started := s.now } ∈ (s.step c (.worker w.seq .go)).workers
  /-- asks the fetcher for the source, -/
  asks : ∀ w ∈ s.workers, w.task.id = id → ∀ u, w.phase = .opening u →
    { w with phase := .fetching t } ∈ (s.step c (.worker w.seq .go)).workers ∧
      (s.step c (.worker w.seq .go)).errands w.seq = [.fetch t.source]
  /-- and hands the stream to the storage for the destination. -/
  hands : ∀ w ∈ s.workers, w.task.id = id → ∀ u, w.phase = .fetching u →
    { w with phase := .storing t } ∈ (s.step c (.worker w.seq (.fetched (.ok ())))).workers ∧
      (s.step c (.worker w.seq (.fetched (.ok ())))).errands w.seq = [.fetch t.source, .put t.destination]
  /-- At any time a worker of the task has asked for what its phase says, -/
  errands : ∀ w ∈ s.workers, w.task.id = id → Errands t w.told w.phase (s.errands w.seq)
  /-- and at no time for anything else; -/
  only : ∀ w ∈ s.workers, w.task.id = id → s.errands w.seq <+: [.fetch t.source, .put t.destination]
  /-- nor for nothing once it is past its opening, if it has not been told to stop. -/
  fetched : ∀ w ∈ s.workers, w.task.id = id → w.told = false → w.phase ≠ .claimed → (∀ u, w.phase ≠ .opening u) →
    .fetch t.source ∈ s.errands w.seq

theorem delivers_of_serves (h : s.ledger.Serves id t) (carries : s.ledger.Carries id kind t.encode)
    (registered : c.kinds.contains kind = true) : s.Delivers c id kind t where
  carries := carries
  recovers := fun _ stored unfinished forgotten => recover_carries h.numbered carries stored unfinished forgotten
  claims := fun _ _ head task taken => claim_carries carries head task taken
  opens := fun _ here task phase => opens h carries registered here task phase
  asks := fun _ here task _ phase => asks h here task phase
  hands := fun _ here task _ phase => hands h here task phase
  errands := h.errands
  only := fun w here task => (h.errands w here task).isPrefix
  fetched := fun w here task untold claimed opening => by
    have errands : Errands t w.told w.phase (s.errands w.seq) := h.errands w here task
    exact errands.fetched untold claimed opening

end State

/-! ## From the command to the calls -/

namespace Life

/-- Every move of these lives, lived one after the other, is `ok` in the state in which it is made. -/
def Follow (ok : State → Move → Prop) (d : Disk) : List Life → Prop
  | [] => True
  | life :: lives =>
    (State.init life.setup d).Follows life.setup ok life.moves ∧
      Follow ok ((State.init life.setup d).run life.setup life.moves).disk lives

theorem Follow.append {ok : State → Move → Prop} {d : Disk} {xs ys : List Life} :
    Follow ok d (xs ++ ys) ↔ Follow ok d xs ∧ Follow ok (disk d xs) ys := by
  induction xs generalizing d with
  | nil => exact (true_and _).symm ▸ Iff.rfl
  | cons life xs ih =>
    show _ ∧ Follow ok _ (xs ++ ys) ↔ (_ ∧ Follow ok _ xs) ∧ Follow ok (disk _ xs) ys
    rw [ih, and_assoc]

end Life

namespace State

variable {id kind : String} {payload : Bytes} {s : State}

/-- A new scheduler has nothing of the task but what the disk has. -/
theorem carries_init (h : s.ledger.Carries id kind payload) (c : Setup) :
    (State.init c s.disk).ledger.Carries id kind payload where
  keyed := h.keyed
  stored := h.stored
  queued := fun _ hq => absurd hq List.not_mem_nil
  held := fun _ hw => absurd hw List.not_mem_nil

theorem serves_init (c : Setup) (d : Disk) (id : String) (t : Transfer) : (State.init c d).ledger.Serves id t where
  numbered := .init c d
  inOrder := fun _ _ => rfl
  errands := fun _ hw => absurd hw List.not_mem_nil

theorem carries_lives (carries : s.ledger.Carries id kind payload) {lives : List Life} (life : Life)
    (follow : Life.Follow (Move.FreshBeside id) s.disk lives) :
    (State.init life.setup (Life.disk s.disk lives)).ledger.Carries id kind payload := by
  induction lives generalizing s with
  | nil => exact carries_init carries life.setup
  | cons first lives ih =>
    exact ih (carries_run (.init first.setup s.disk) (carries_init carries first.setup) follow.1) follow.2

/-- A scheduler that has a kind delivers what was filed in another life, and in this one. -/
theorem delivers_run (serves : s.ledger.Serves id t) (carries : s.ledger.Carries id kind t.encode)
    (registered : c.kinds.contains kind = true) {ms : List Move} (run : s.Follows c (Move.FreshBeside id) ms) :
    (s.run c ms).Delivers c id kind t :=
  delivers_of_serves (serves_run serves carries registered run) (carries_run serves.numbered carries run) registered

/-- What an operator enqueues is put into the store as a pending record with the payload of its source and its
destination. -/
theorem put_of_enqueue {source destination id : String} {title : Option String} {now : Int} {store after : Store}
    {lines : List String}
    (accepted : (Console.Command.enqueue kind source destination title).run id now store = (.ok lines, after)) :
    store.put (Record.new id kind (Transfer.encode ⟨source, destination⟩) (title.getD destination) now) =
      .ok after := by
  simp only [Console.Command.run] at accepted
  split at accepted
  · cases accepted
  · next put =>
    cases accepted
    exact put

/-- The payload of a source and a destination is read as exactly these, and no other two have the same. After an
operator has enqueued them next to a scheduler, in any state of its, their payload is in the row. Whatever moves
follow, in this life and in any others, as long as nobody files another task under the same id, a scheduler that
has the kind delivers them: it recovers and claims the task with this payload, and the worker asks the fetcher
for exactly the source and the storage for exactly the destination. -/
theorem payload_delivered (t : Transfer) :
    Transfer.decode t.encode = .ok t ∧ (∀ u : Transfer, u.encode = t.encode → u = t) ∧
      ∀ (c : Setup) (d : Disk) (before after : List Move) (id kind : String) (title : Option String) (now : Int)
        (lines : List String) (store : Store),
        d.store.Keyed → (State.init c d).Follows c Move.Fresh before →
        let s := (State.init c d).run c before
        s.ledger.isNew id →
        (Console.Command.enqueue kind t.source t.destination title).run id now s.disk.store = (.ok lines, store) →
        let filed : State := { s with disk := { s.disk with store } }
        filed.Follows c (Move.FreshBeside id) after →
        store.row? id = some (Record.new id kind t.encode (title.getD t.destination) now).row ∧
          (c.kinds.contains kind = true → (filed.run c after).Delivers c id kind t) ∧
          ∀ (lives : List Life) (life : Life),
            Life.Follow (Move.FreshBeside id) (filed.run c after).disk (lives ++ [life]) →
            life.setup.kinds.contains kind = true →
            ((State.init life.setup (Life.disk (filed.run c after).disk lives)).run life.setup
              life.moves).Delivers life.setup id kind t := by
  refine ⟨Transfer.decode_encode t, fun u same => Transfer.encode_injective same, ?_⟩
  intro c d before after id kind title now lines store keyed run s new accepted filed follows
  have employs : s.ledger.Employs := employs_run c d run
  have put := put_of_enqueue accepted
  have carries : filed.ledger.Carries id kind t.encode :=
    employs.carries_put (keyed_of_fresh keyed run) new put
  have serves : filed.ledger.Serves id t := employs.serves_put new store t
  refine ⟨row?_of_put put, fun registered => delivers_run serves carries registered follows,
    fun lives life follow registered => ?_⟩
  obtain ⟨lived, last, -⟩ := Life.Follow.append.mp follow
  have left : (filed.run c after).ledger.Carries id kind t.encode := carries_run serves.numbered carries follows
  exact delivers_run (serves_init _ _ id t) (carries_lives left life lived) registered last

/-- Characters that are escaped in a payload, and some that take several bytes. -/
def quotedTransfer : Transfer := ⟨"https://media/\"a\\b\"\n", "/new/né 日"⟩

/-- The store of an operator who has enqueued them. -/
def quotedStore : Store :=
  ((Console.Command.enqueue "mem" quotedTransfer.source quotedTransfer.destination none).run "a" 0 Store.empty).2

/-- A task is claimed and left there; a new scheduler recovers it, claims it again and carries it out. -/
def claimedRun : List Move := [.recover, .start, .loop .go, .loop .permit, .loop .go, .loop .go]

def carriedOutRun : List Move := claimedRun ++ [.worker 0 .go, .worker 0 .go, .worker 0 (.fetched (.ok ()))]

/-- The worker of the second life has asked for the source and the destination as they were typed. -/
theorem payload_delivered_after_restart :
    let c := Setup.small 0
    let left := ((State.init c { store := quotedStore, outages := [] }).run c claimedRun).disk
    let s := (State.init c left).run c carriedOutRun
    left.store.status? "a" = some .running ∧ s.Delivers c "a" "mem" quotedTransfer ∧
      s.errands 0 = [.fetch "https://media/\"a\\b\"\n", .put "/new/né 日"] := by
  have delivered := (payload_delivered quotedTransfer).2.2 (Setup.small 0) { store := Store.empty, outages := [] } []
    claimedRun "a" "mem" none 0 ["Enqueued task a."] quotedStore List.nodup_nil trivial (by decide) (by decide +kernel)
    (by decide +kernel)
  refine ⟨by decide +kernel, ?_, by decide +kernel⟩
  exact delivered.2.2 [] ⟨Setup.small 0, carriedOutRun⟩ ⟨by decide +kernel, trivial⟩ (by decide)

end State

end Courier.Scheduler
