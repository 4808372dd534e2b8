/-
# Courier.Proofs.Scheduler.Recovery -- what a recovery finds on a healthy disk

A recovery stops at the first write that is refused. On a disk that refuses nothing it goes through all
its records, and then `State.recover_queues` says what it is there for: an unfinished task that memory
does not know of is in the queue afterwards.
-/
import Courier.Proofs.Scheduler.Agreement

namespace Courier.Scheduler

variable {c : Setup}

namespace State

/-- On a healthy disk the status of a known task can be written. -/
theorem writeStatus_of_healthy {s : State} (healthy : s.disk.outages = []) {id : String}
    (known : id ∈ s.disk.store.ids) (status : Status) (error : String) :
    ∃ store, store.ids = s.disk.store.ids ∧
      s.writeStatus id status error = (.ok (),
        { s with
          disk := { s.disk with store }
          history := .wrote id status error :: s.history }) := by
  obtain ⟨store, hstore⟩ := Store.updateStatus_of_mem known status error s.now
  refine ⟨store, Store.ids_updateStatus hstore, ?_⟩
  unfold writeStatus Disk.updateStatus
  rw [Disk.write_of_healthy healthy hstore]

/-! ## Records -/

/-- What the records of a recovery leave as it is. -/
structure Recovering (s t : State) : Prop where
  healthy : t.disk.outages = []
  ids : t.disk.store.ids = s.disk.store.ids
  queued : ∀ id ∈ s.ledger.queuedIds, id ∈ t.ledger.queuedIds

theorem Recovering.trans {s t u : State} (hst : s.Recovering t) (htu : t.Recovering u) :
    s.Recovering u where
  healthy := htu.healthy
  ids := htu.ids.trans hst.ids
  queued := fun id hid => htu.queued id (hst.queued id hid)

/-- One record: it is dealt with, its task is known afterwards, and no other task becomes known. -/
theorem recoverRecord_of_healthy (s : State) (done : Recovery) (r : Record)
    (healthy : s.disk.outages = []) (known : r.id ∈ s.disk.store.ids) :
    ∃ done' t, s.recoverRecord c done r = (.ok done', t) ∧ s.Recovering t ∧
      (r.id ∉ s.ledger.tracked → r.id ∈ t.ledger.queuedIds) ∧
      ∀ id, id ≠ r.id → id ∉ s.ledger.tracked → id ∉ t.ledger.tracked := by
  have takes {t : State} (healthy : t.disk.outages = []) (ids : t.disk.store.ids = s.disk.store.ids)
      (queue : t.queue = s.queue ++ [.ofRecord c r]) (running : t.running = s.running)
      (cancelling : t.cancelling = s.cancelling) :
      s.Recovering t ∧ (r.id ∉ s.ledger.tracked → r.id ∈ t.ledger.queuedIds) ∧
        ∀ id, id ≠ r.id → id ∉ s.ledger.tracked → id ∉ t.ledger.tracked := by
    have hqueue : t.ledger.queuedIds = (s.queue ++ [Queued.ofRecord c r]).map Queued.id :=
      congrArg (List.map Queued.id) queue
    have htracked : t.ledger.tracked.Perm (r.id :: s.ledger.tracked) :=
      Ledger.tracked_enter (q := .ofRecord c r) queue running cancelling
    refine ⟨⟨healthy, ids, ?_⟩, ?_, ?_⟩
    · intro id hid
      rw [hqueue]
      exact Ledger.mem_ids_append.mpr (Or.inl hid)
    · intro _
      rw [hqueue]
      exact Ledger.mem_ids_append.mpr (Or.inr rfl)
    · intro id hne forgotten hid
      exact (List.mem_cons.mp (htracked.mem_iff.mp hid)).elim hne forgotten
  unfold recoverRecord
  split
  · rename_i hheld
    obtain ⟨store, hids, hw⟩ := writeStatus_of_healthy healthy known .cancelled ""
    rw [hw]
    refine ⟨_, _, rfl, ⟨healthy, hids, fun _ hid => hid⟩, ?_, ?_⟩
    · intro forgotten
      have held : r.id ∈ s.ledger.cancelling := List.contains_iff_mem.mp hheld
      exact absurd (Ledger.mem_tracked.mpr (Or.inr (Or.inr held))) forgotten
    · intro id _ forgotten hid
      rw [Ledger.mem_tracked] at forgotten hid
      exact forgotten (hid.imp_right (Or.imp_right List.mem_of_mem_erase))
  · split
    · rename_i hknown
      refine ⟨_, _, rfl, ⟨healthy, rfl, fun _ hid => hid⟩, ?_, fun _ _ forgotten => forgotten⟩
      intro forgotten
      rw [Bool.or_eq_true, running?_isSome_iff, isQueued_iff] at hknown
      exact absurd (Ledger.mem_tracked.mpr (hknown.symm.imp_right Or.inl)) forgotten
    · by_cases hrun : r.status = .running
      · simp only [hrun, if_true]
        obtain ⟨store, hids, hw⟩ := writeStatus_of_healthy healthy known .pending ""
        rw [hw]
        exact ⟨_, _, rfl, takes healthy hids rfl rfl rfl⟩
      · simp only [hrun, if_false]
        exact ⟨_, _, rfl, takes healthy rfl rfl rfl rfl⟩

/-- On a healthy disk a recovery gets to the end of its records. -/
theorem recoverRecords_of_healthy (records : List Record) (s : State) (done : Recovery)
    (healthy : s.disk.outages = []) (known : ∀ r ∈ records, r.id ∈ s.disk.store.ids) :
    ∃ done' t, recoverRecords c records s done = (.ok done', t) ∧ s.Recovering t ∧
      ∀ r ∈ records, r.id ∉ s.ledger.tracked → r.id ∈ t.ledger.queuedIds := by
  induction records generalizing s done with
  | nil => exact ⟨done, s, rfl, ⟨healthy, rfl, fun _ hid => hid⟩, by simp⟩
  | cons r records ih =>
    obtain ⟨done', t, hfirst, hst, htaken, hothers⟩ :=
      s.recoverRecord_of_healthy (c := c) done r healthy (known r List.mem_cons_self)
    have known' : ∀ x ∈ records, x.id ∈ t.disk.store.ids := by
      intro x hx
      rw [hst.ids]
      exact known x (List.mem_cons_of_mem r hx)
    obtain ⟨done'', u, hrest, htu, hrecords⟩ := ih t done' hst.healthy known'
    refine ⟨done'', u, ?_, hst.trans htu, ?_⟩
    · unfold recoverRecords
      rw [hfirst]
      exact hrest
    · intro x hx forgotten
      -- The head is the task itself, or it leaves the task as unknown as it was.
      by_cases hne : x.id = r.id
      · rw [hne] at forgotten ⊢
        exact htu.queued r.id (htaken forgotten)
      · have hx' : x ∈ records :=
          (List.mem_cons.mp hx).resolve_left fun heq => hne (congrArg Record.id heq)
        exact hrecords x hx' (hothers x.id hne forgotten)

/-- On a healthy disk with a task table a recovery succeeds. -/
theorem recover_of_healthy {s : State} (healthy : s.disk.outages = []) {rows : List Row}
    (table : s.disk.store.rows = .ok rows) : ∃ n t, s.recover c = (.ok n, t) := by
  obtain ⟨records, hrecords⟩ := Store.listPending_of_rows table
  have known : ∀ r ∈ records, r.id ∈ s.disk.store.ids :=
    fun r hr => Store.mem_ids_of_mem_listPending hrecords hr
  obtain ⟨done, t, hrun, -, -⟩ := recoverRecords_of_healthy (c := c) records s {} healthy known
  unfold recover
  rw [Disk.listPending_of_healthy healthy, hrecords]
  simp only
  rw [hrun]
  exact ⟨_, _, rfl⟩

/-- An unfinished task that memory does not know of is queued by a recovery on a healthy disk. -/
theorem recover_queues {s : State} (healthy : s.disk.outages = []) {id : String} {status : Status}
    (stored : s.disk.store.status? id = some status) (unfinished : status = .pending ∨ status = .running)
    (forgotten : id ∉ s.ledger.tracked) : id ∈ (s.recover c).2.ledger.queuedIds := by
  have hrows := Store.rows_of_mem_ids (Store.mem_ids_of_status? stored)
  obtain ⟨records, hrecords⟩ := Store.listPending_of_rows hrows
  obtain ⟨r, hr, rfl⟩ := Store.mem_listPending hrecords stored unfinished
  have known : ∀ x ∈ records, x.id ∈ s.disk.store.ids :=
    fun x hx => Store.mem_ids_of_mem_listPending hrecords hx
  obtain ⟨done, t, hrun, -, hqueued⟩ := recoverRecords_of_healthy (c := c) records s {} healthy known
  unfold recover
  rw [Disk.listPending_of_healthy healthy, hrecords]
  simp only
  rw [hrun]
  exact hqueued r hr forgotten

/-! ## What is noted -/

/-- A recovery writes to the records that it has listed, and queues their tasks. -/
inductive Retrieved (r : Record) : Happening → Prop
  | enqueued : Retrieved r (.enqueued r.id)
  | wrote (status : Status) : Retrieved r (.wrote r.id status "")

theorem recoverRecord_history (s : State) (done : Recovery) (r : Record) :
    ∃ hs, (s.recoverRecord c done r).2.history = hs ++ s.history ∧ ∀ x ∈ hs, Retrieved r x := by
  have none : ∀ x ∈ ([] : List Happening), Retrieved r x := by simp
  unfold recoverRecord
  split
  · rcases s.writeStatus_cases r.id .cancelled "" with ⟨disk, hw, -⟩ | ⟨e, disk, hw, -⟩ <;> rw [hw]
    · exact ⟨[_], rfl, List.forall_mem_cons.mpr ⟨.wrote _, none⟩⟩
    · exact ⟨[], rfl, none⟩
  · split
    · exact ⟨[], rfl, none⟩
    · by_cases hrun : r.status = .running
      · simp only [hrun, if_true]
        rcases s.writeStatus_cases r.id .pending "" with ⟨disk, hw, -⟩ | ⟨e, disk, hw, -⟩ <;> rw [hw]
        · exact ⟨[_, _], rfl,
            List.forall_mem_cons.mpr ⟨.enqueued, List.forall_mem_cons.mpr ⟨.wrote _, none⟩⟩⟩
        · exact ⟨[], rfl, none⟩
      · simp only [hrun, if_false]
        exact ⟨[_], rfl, List.forall_mem_cons.mpr ⟨.enqueued, none⟩⟩

theorem recoverRecords_history (records : List Record) (s : State) (done : Recovery) :
    ∃ hs, (recoverRecords c records s done).2.history = hs ++ s.history ∧
      ∀ x ∈ hs, ∃ r ∈ records, Retrieved r x := by
  induction records generalizing s done with
  | nil => exact ⟨[], rfl, by simp⟩
  | cons r records ih =>
    obtain ⟨hs, hfirst, hhead⟩ := s.recoverRecord_history (c := c) done r
    have hhead : ∀ x ∈ hs, ∃ y ∈ r :: records, Retrieved y x :=
      fun x hx => ⟨r, List.mem_cons_self, hhead x hx⟩
    unfold recoverRecords
    generalize hw : s.recoverRecord c done r = w at hfirst
    obtain ⟨result, t⟩ := w
    cases result with
    | error e => exact ⟨hs, hfirst, hhead⟩
    | ok done =>
      obtain ⟨hs', hrest, htail⟩ := ih t done
      have hfirst : t.history = hs ++ s.history := hfirst
      refine ⟨hs' ++ hs, ?_, ?_⟩
      · simp only
        rw [hrest, hfirst, List.append_assoc]
      · intro x hx
        rcases List.mem_append.mp hx with hx | hx
        · obtain ⟨y, hy, retrieved⟩ := htail x hx
          exact ⟨y, List.mem_cons_of_mem r hy, retrieved⟩
        · exact hhead x hx

/-- No worker lets go of a task during a recovery. -/
theorem recover_history (s : State) :
    ∃ hs, (s.recover c).2.history = hs ++ s.history ∧ ∀ id, .letGo id ∉ hs := by
  unfold recover
  split
  · exact ⟨[], rfl, by simp⟩
  · rename_i records disk hlist
    obtain ⟨hs, hhistory, hretrieved⟩ := recoverRecords_history (c := c) records { s with disk } {}
    have hquiet : ∀ id, .letGo id ∉ hs := by
      intro id hid
      obtain ⟨r, -, retrieved⟩ := hretrieved _ hid
      cases retrieved
    generalize recoverRecords c records { s with disk } {} = w at hhistory
    obtain ⟨result, t⟩ := w
    cases result <;> exact ⟨hs, hhistory, hquiet⟩

/-! ## Runs -/

theorem agrees_of_orderly {disk : Disk} (keyed : disk.store.Keyed) {ms : List Move}
    (run : (State.init c disk).Follows c Move.Orderly ms) :
    ((State.init c disk).run c ms).ledger.Agrees :=
  (Ledger.Agrees.init c keyed).acts (run_acts_of_orderly run)

/-- Memory and store agree, over every run in which nobody else deletes or overwrites a record: on
what is queued, running and cancelled late, on what has ended, and on what memory may forget. A task
that it forgets without an end reads `running`, and the next recovery that the disk lets through queues
it. -/
theorem memory_and_store_agree (c : Setup) (disk : Disk) (keyed : disk.store.Keyed) (ms : List Move)
    (run : (State.init c disk).Follows c Move.Orderly ms) :
    let s := (State.init c disk).run c ms
    let status := s.disk.store.status?
    (∀ id ∈ s.ledger.queuedIds, status id = some .pending) ∧
      (∀ id ∈ s.ledger.runningIds, status id = some .running ∨
        status id = some .pending ∧ ∃ w ∈ s.workers, w.task.id = id ∧ w.phase.requeues = true) ∧
      (∀ id ∈ s.cancelling, status id = some .pending ∨ status id = some .cancelled) ∧
      (∀ id st, status id = some st → st.isTerminal = true →
        id ∉ s.ledger.queuedIds ∧ id ∉ s.ledger.runningIds) ∧
      (∀ id, .enqueued id ∈ s.history → status id = some .pending →
        id ∈ s.ledger.queuedIds ∨ id ∈ s.ledger.runningIds ∨ id ∈ s.cancelling) ∧
      ∀ id, .enqueued id ∈ s.history → id ∉ s.ledger.queuedIds → id ∉ s.ledger.runningIds →
        id ∉ s.cancelling →
        (∃ st, status id = some st ∧ st.isTerminal = true) ∨
          status id = some .running ∧ id ∈ (s.run c [.heal, .recover]).ledger.queuedIds := by
  intro s status
  have h : s.ledger.Agrees := agrees_of_orderly keyed run
  refine ⟨h.queued, h.running, h.cancelling, ?_, ?_, ?_⟩
  · intro id st stored terminal
    refine ⟨fun queued => ?_, fun running => ?_⟩
    · have pending : status id = some .pending := h.queued id queued
      rw [stored] at pending
      cases pending
      cases terminal
    · have open' : status id = some .running ∨ status id = some .pending :=
        (h.running id running).imp_right And.left
      rw [stored] at open'
      rcases open' with open' | open' <;> cases open' <;> cases terminal
  · intro id enqueued pending
    exact Ledger.mem_tracked.mp (h.pending id enqueued pending)
  · intro id enqueued notQueued notRunning notCancelling
    have forgotten : id ∉ s.ledger.tracked := by
      simp [Ledger.mem_tracked, notQueued, notRunning, show id ∉ s.ledger.cancelling from notCancelling]
    obtain ⟨st, stored⟩ := h.stored id enqueued
    have stored : status id = some st := stored
    -- A pending task is never forgotten, so without an end there is only `running` left.
    cases st with
    | pending => exact absurd (h.pending id enqueued stored) forgotten
    | running =>
      refine Or.inr ⟨stored, ?_⟩
      show id ∈ (({ s with disk := s.disk.heal } : State).recover c).2.ledger.queuedIds
      exact recover_queues rfl stored (Or.inr rfl) forgotten
    | completed => exact Or.inl ⟨_, stored, rfl⟩
    | failed => exact Or.inl ⟨_, stored, rfl⟩
    | cancelled => exact Or.inl ⟨_, stored, rfl⟩

/-- A worker cannot store that its task has failed, lets go of it, and the task is found again. -/
theorem memory_and_store_agree_let_go :
    let c := Setup.small 0
    let ms : List Move :=
      [.submit "a" "mem" [] "film", .start, .loop .go, .loop .permit, .loop .go, .loop .go,
        .outage (.update .failed) .always, .worker 0 .go, .worker 0 .go, .worker 0 .go, .worker 0 .go,
        .worker 0 .go, .worker 0 .go, .worker 0 .go, .worker 0 .go]
    let s := (State.init c {}).run c ms
    (({} : Disk).store.Keyed ∧ (State.init c {}).Follows c Move.Orderly ms) ∧
      .letGo "a" ∈ s.history ∧ s.disk.store.status? "a" = some .running ∧
      "a" ∈ (s.run c [.heal, .recover]).ledger.queuedIds := by
  have run : (State.init (Setup.small 0) {}).Follows (Setup.small 0) Move.Orderly
      [.submit "a" "mem" [] "film", .start, .loop .go, .loop .permit, .loop .go, .loop .go,
        .outage (.update .failed) .always, .worker 0 .go, .worker 0 .go, .worker 0 .go, .worker 0 .go,
        .worker 0 .go, .worker 0 .go, .worker 0 .go, .worker 0 .go] := by decide
  have keyed : ({} : Disk).store.Keyed := List.nodup_nil
  obtain ⟨-, -, -, -, -, found⟩ := memory_and_store_agree (Setup.small 0) {} keyed _ run
  refine ⟨⟨keyed, run⟩, by decide +kernel, ?_⟩
  rcases found "a" (by decide +kernel) (by decide +kernel) (by decide +kernel) (by decide +kernel) with
    ⟨st, stored, terminal⟩ | found
  · have running : Status.running = st := Option.some.inj (Eq.trans (by decide +kernel) stored)
    subst running
    cases terminal
  · exact found

end State

end Courier.Scheduler
