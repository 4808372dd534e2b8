/-
# Courier.Proofs.Scheduler.Moves -- every move is a row of acts

The definitions of `Courier.Scheduler` are opened here and nowhere else: `State.step_acts` says that
what a move does to the ledger is a row of acts. Most moves are one act or none; a recovery is one act
for each record that it takes or whose cancellation it stores, and leaves the workers alone
(`State.recover_acts`).
-/
import Courier.Proofs.Scheduler.Ledger
import Courier.Proofs.Store.Disk

namespace Courier.Scheduler

variable {c : Setup} {E : Edits}

namespace State

/-- What has been reported stands in the history. -/
theorem mem_events {s : State} {e : Event} : e ∈ s.events ↔ .reported e ∈ s.history := by
  simp only [events, List.mem_filterMap, List.mem_reverse]
  constructor
  · rintro ⟨x, hx, hxe⟩
    cases x <;> cases hxe
    exact hx
  · exact fun h => ⟨_, h, rfl⟩

theorem ledger_disk {s : State} {disk : Disk} (h : disk.store = s.disk.store) :
    ({ s with disk } : State).ledger = s.ledger := by
  simp [ledger, h]

/-- A status write is carried out and noted, or it is refused. -/
theorem writeStatus_cases (s : State) (id : String) (status : Status) (error : String) :
    (∃ disk, s.writeStatus id status error =
          (.ok (), { s with disk, history := .wrote id status error :: s.history }) ∧
        s.ledger.Writes id status error disk.store) ∨
      ∃ e disk, s.writeStatus id status error = (.error e, { s with disk }) ∧
        disk.store = s.disk.store ∧ ∀ x, e = .notFound x → id ∉ s.ledger.store.ids := by
  unfold writeStatus
  rcases s.disk.write_cases (.update status) fun store =>
    store.updateStatus id status error s.now with ⟨disk, hw, hstore⟩ | ⟨e, disk, hw, hstore⟩
  · change s.disk.updateStatus id status error s.now = _ at hw
    exact Or.inl ⟨disk, by rw [hw], s.now, hstore⟩
  · change s.disk.updateStatus id status error s.now = _ at hw
    refine Or.inr ⟨e, disk, by rw [hw], hstore, ?_⟩
    rintro x rfl
    exact Disk.notMem_ids_of_notFound hw

theorem isQueued_iff (s : State) (id : String) : s.isQueued id = true ↔ id ∈ s.ledger.queuedIds := by
  simp [isQueued, Ledger.queuedIds, ledger]

theorem running?_isSome_iff (s : State) (id : String) :
    (s.running? id).isSome = true ↔ id ∈ s.ledger.runningIds := by
  simp [running?, Ledger.runningIds, ledger]

/-! ## Requests -/

/-- A submission stores, queues and reports a new task, or it is refused. -/
theorem submit_cases (s : State) (id kind : String) (payload : Bytes) (title : String) :
    (∃ e disk, disk.store = s.disk.store ∧
        s.submit c id kind payload title = (.error e, { s with disk })) ∨
      ∃ disk, s.disk.store.put (.new id kind payload title s.now) = .ok disk.store ∧
        s.submit c id kind payload title =
          (.ok id,
            { s with
              disk
              queue := s.queue ++ [Queued.ofRecord c (.new id kind payload title s.now)]
              calls := s.calls ++ [[.wake]]
              history := .reported (.submitted id kind title) :: .enqueued id ::
                .wrote id .pending "" :: s.history }) := by
  unfold submit
  split
  · exact Or.inl ⟨_, s.disk, rfl, rfl⟩
  · split
    · exact Or.inl ⟨_, s.disk, rfl, rfl⟩
    · simp only
      rcases s.disk.write_cases .put fun store => store.put (Record.new id kind payload title s.now)
        with ⟨disk, hw, hstore⟩ | ⟨e, disk, hw, hstore⟩
      · change s.disk.put (Record.new id kind payload title s.now) = _ at hw
        rw [hw]
        exact Or.inr ⟨disk, hstore, rfl⟩
      · change s.disk.put (Record.new id kind payload title s.now) = _ at hw
        rw [hw]
        exact Or.inl ⟨_, disk, hstore, rfl⟩

theorem submit_act (s : State) (id kind : String) (payload : Bytes) (title : String)
    (hnew : s.ledger.isNew id)
    (allowed : ∀ store, s.disk.store.put (Record.new id kind payload title s.now) = .ok store →
      E s.ledger store) :
    OneAct c E s.ledger (s.submit c id kind payload title).2.ledger := by
  rcases s.submit_cases (c := c) id kind payload title with ⟨e, disk, hstore, h⟩ | ⟨disk, hput, h⟩ <;> rw [h]
  · exact (ledger_disk hstore).symm ▸ .refl
  · exact .single (.submit (.new id kind payload title s.now) disk.store hnew rfl hput
      (allowed disk.store hput))

/-- A submission that returns an id has stored the task as pending. -/
theorem status?_of_submit {s : State} {id kind title : String} {payload : Bytes}
    (accepted : (s.submit c id kind payload title).1 = .ok id) :
    (s.submit c id kind payload title).2.disk.store.status? id = some .pending := by
  rcases s.submit_cases (c := c) id kind payload title with ⟨e, disk, -, h⟩ | ⟨disk, hput, h⟩
  · rw [h] at accepted
    cases accepted
  · rw [h]
    exact (Store.status?_put hput id).trans (if_pos rfl)

/-- A cancellation takes a queued task out of the queue, or marks a running one, or it is refused. -/
theorem cancel_cases (s : State) (id : String) :
    (∃ e disk, disk.store = s.disk.store ∧ s.cancel id = (.error e, { s with disk })) ∨
      (∃ disk, id ∈ s.ledger.queuedIds ∧ s.ledger.Writes id .cancelled "" disk.store ∧
        s.cancel id =
          (.ok (),
            { s with
              disk
              queue := s.queue.eraseP fun t => t.id = id
              calls := s.calls ++ [[.report (.cancelled id)]]
              history := .accepted id :: .withdrawn id :: .wrote id .cancelled "" :: s.history })) ∨
      ∃ r ∈ s.running, r.id = id ∧ s.cancel id = (.ok (), (s.tellRunning r).note (.accepted id)) := by
  unfold cancel
  split
  · rename_i hq
    rcases s.writeStatus_cases id .cancelled "" with ⟨disk, hw, hwrites⟩ | ⟨e, disk, hw, hstore, -⟩ <;> rw [hw]
    · exact Or.inr (Or.inl ⟨disk, (s.isQueued_iff id).mp hq, hwrites, rfl⟩)
    · exact Or.inl ⟨_, disk, hstore, rfl⟩
  · split
    · rename_i r hr
      have hid : r.id = id := by simpa using List.find?_some hr
      exact Or.inr (Or.inr ⟨r, List.mem_of_find?_eq_some hr, hid, rfl⟩)
    · exact Or.inl ⟨_, s.disk, rfl, rfl⟩

/-- Telling a running task twice is telling it once. -/
theorem tellRunning_cases (s : State) (r : Running) :
    r.cancelRequested = true ∧ s.tellRunning r = s ∨
      r.cancelRequested = false ∧ s.tellRunning r =
        { s with
          running := s.running.map fun x =>
            if x.id = r.id then { x with cancelRequested := true } else x
          workers := s.workers.map fun w => if w.seq = r.seq then { w with told := true } else w } := by
  unfold tellRunning
  split
  · rename_i hasked
    exact Or.inl ⟨hasked, rfl⟩
  · rename_i hasked
    exact Or.inr ⟨by simpa using hasked, rfl⟩

theorem cancel_act (s : State) (id : String) : OneAct c E s.ledger (s.cancel id).2.ledger := by
  rcases s.cancel_cases id with ⟨e, disk, hstore, h⟩ | ⟨disk, hq, hwrites, h⟩ | ⟨r, hr, rfl, h⟩ <;> rw [h]
  · exact (ledger_disk hstore).symm ▸ .refl
  · exact .single (.withdraw id disk.store hq hwrites)
  · rcases s.tellRunning_cases r with ⟨hasked, ht⟩ | ⟨hasked, ht⟩ <;> rw [ht]
    · exact .single (.retell r hr hasked)
    · exact .single (.tell r hr hasked)

/-- An accepted cancellation is stored, or the entry of the running task is marked. -/
theorem cancel_ok_cases {s : State} {id : String} (accepted : (s.cancel id).1 = .ok ()) :
    (s.cancel id).2.disk.store.status? id = some .cancelled ∨
      ∃ r ∈ (s.cancel id).2.running, r.id = id ∧ r.cancelRequested = true := by
  rcases s.cancel_cases id with ⟨e, disk, -, h⟩ | ⟨disk, -, hwrites, h⟩ | ⟨r, hr, rfl, h⟩
  · rw [h] at accepted
    cases accepted
  · rw [h]
    exact Or.inl hwrites.status?_self
  · rw [h]
    right
    rcases s.tellRunning_cases r with ⟨hasked, ht⟩ | ⟨-, ht⟩ <;> rw [ht]
    · exact ⟨r, hr, rfl, hasked⟩
    · refine ⟨_, List.mem_map_of_mem hr, ?_, ?_⟩ <;> simp

/-- What a recovery may rely on: with unique ids, no record is listed twice and each is listed as it is
stored. -/
def Listed (s : State) (records : List Record) : Prop :=
  (∀ r ∈ records, r.status = .pending ∨ r.status = .running) ∧
    (s.disk.store.Keyed →
      (records.map Record.id).Nodup ∧ ∀ r ∈ records, s.disk.store.row? r.id = some r.row)

/-- One record of a recovery touches no other one. -/
theorem recoverRecord_frame (s : State) (done : Recovery) (r : Record) :
    let t := (s.recoverRecord c done r).2
    t.disk.store.ids = s.disk.store.ids ∧
      ∀ x, x ≠ r.id → t.disk.store.row? x = s.disk.store.row? x := by
  have written {disk : Disk} {status : Status} {error : String}
      (hw : s.ledger.Writes r.id status error disk.store) :
      disk.store.ids = s.disk.store.ids ∧
        ∀ x, x ≠ r.id → disk.store.row? x = s.disk.store.row? x := by
    obtain ⟨now, hw⟩ := hw
    refine ⟨Store.ids_updateStatus hw, ?_⟩
    intro x hx
    rw [Store.row?_updateStatus hw]
    simp only [hx, if_false, Option.map_id']
    rfl
  have kept {disk : Disk} (h : disk.store = s.disk.store) :
      disk.store.ids = s.disk.store.ids ∧
        ∀ x, x ≠ r.id → disk.store.row? x = s.disk.store.row? x := by
    simp [h]
  unfold recoverRecord
  split
  · rcases s.writeStatus_cases r.id .cancelled "" with ⟨disk, hw, hwrites⟩ | ⟨e, disk, hw, hstore, -⟩
    · rw [hw]
      exact written hwrites
    · rw [hw]
      exact kept hstore
  · split
    · exact kept rfl
    · by_cases hrun : r.status = .running
      · simp only [hrun, if_true]
        rcases s.writeStatus_cases r.id .pending "" with ⟨disk, hw, hwrites⟩ | ⟨e, disk, hw, hstore, -⟩
        · rw [hw]
          exact written hwrites
        · rw [hw]
          exact kept hstore
      · simp only [hrun, if_false]
        exact ⟨trivial, fun _ _ => trivial⟩

/-- What one record of a recovery touches. -/
theorem recoverRecord_touches (s : State) (done : Recovery) (r : Record) :
    ∃ disk queue cancelling history,
      (s.recoverRecord c done r).2 = { s with disk, queue, cancelling, history } := by
  unfold recoverRecord
  split
  · rcases s.writeStatus_cases r.id .cancelled "" with ⟨disk, hw, -⟩ | ⟨e, disk, hw, -⟩ <;> rw [hw] <;>
      exact ⟨_, _, _, _, rfl⟩
  · split
    · exact ⟨_, _, _, _, rfl⟩
    · by_cases hrun : r.status = .running
      · simp only [hrun, if_true]
        rcases s.writeStatus_cases r.id .pending "" with ⟨disk, hw, -⟩ | ⟨e, disk, hw, -⟩ <;> rw [hw] <;>
          exact ⟨_, _, _, _, rfl⟩
      · simp only [hrun, if_false]
        exact ⟨_, _, _, _, rfl⟩

theorem recoverRecords_touches (records : List Record) (s : State) (done : Recovery) :
    ∃ disk queue cancelling history,
      (recoverRecords c records s done).2 = { s with disk, queue, cancelling, history } := by
  induction records generalizing s done with
  | nil => exact ⟨_, _, _, _, rfl⟩
  | cons r records ih =>
    obtain ⟨disk, queue, cancelling, history, first⟩ := s.recoverRecord_touches (c := c) done r
    unfold recoverRecords
    generalize s.recoverRecord c done r = w at first
    obtain ⟨result, t⟩ := w
    subst first
    cases result with
    | ok next =>
      obtain ⟨disk, queue, cancelling, history, rest⟩ := ih _ next
      exact ⟨disk, queue, cancelling, history, rest⟩
    | error e => exact ⟨_, _, _, _, rfl⟩

/-- A recovery leaves the workers, the running set, the loop and the permits alone. -/
theorem recover_touches (s : State) :
    ∃ disk queue cancelling calls history,
      (s.recover c).2 = { s with disk, queue, cancelling, calls, history } := by
  unfold recover
  split
  · exact ⟨_, _, _, _, _, rfl⟩
  · rename_i records listed _
    obtain ⟨disk, queue, cancelling, history, all⟩ :=
      recoverRecords_touches (c := c) records { s with disk := listed } {}
    generalize recoverRecords c records { s with disk := listed } {} = w at all
    obtain ⟨result, t⟩ := w
    subst all
    cases result <;> exact ⟨_, _, _, _, _, rfl⟩

/-- The ledger while a recovery holds the lock: what it has gathered is the last caller's. -/
def opened (s : State) (done : Recovery) : Ledger :=
  { s.ledger with calls := s.calls ++ [done.effects] }

theorem opened_disk {s : State} {disk : Disk} (h : disk.store = s.disk.store) (done : Recovery) :
    ({ s with disk } : State).opened done = s.opened done := by
  simp [opened, ledger, h]

/-- What a recovery has gathered after one more record. -/
def Recovery.after (done : Recovery) : Except Store.Error Recovery → Recovery
  | .ok next => next
  | .error _ => done

/-- One record of a recovery is one act, or none, and not about a worker. -/
theorem recoverRecord_act (s : State) (done : Recovery) (r : Record)
    (hopen : r.status = .pending ∨ r.status = .running)
    (hlisted : s.disk.store.Keyed → s.disk.store.row? r.id = some r.row) :
    let w := s.recoverRecord c done r
    OneAct c E (s.opened done) (w.2.opened (done.after w.1)) ∧ w.2.workers = s.workers := by
  unfold recoverRecord
  split
  · rename_i hheld
    rcases s.writeStatus_cases r.id .cancelled "" with ⟨disk, hw, hwrites⟩ | ⟨e, disk, hw, hstore, -⟩
    · rw [hw]
      have unfinished : s.disk.store.Keyed → s.disk.store.status? r.id = some .pending ∨
          s.disk.store.status? r.id = some .running := by
        intro keyed
        rw [Store.status?_of_row? (hlisted keyed)]
        exact hopen.imp (congrArg some) (congrArg some)
      exact ⟨.single (.storeCancel (l := s.opened done) r.id disk.store (List.contains_iff_mem.mp hheld)
        hwrites unfinished s.calls done rfl), rfl⟩
    · rw [hw]
      exact ⟨(opened_disk hstore done).symm ▸ .refl, rfl⟩
  · rename_i hheld
    have notHeld : r.id ∉ s.ledger.cancelling := fun h => hheld (List.contains_iff_mem.mpr h)
    split
    · exact ⟨.refl, rfl⟩
    · rename_i hknown
      simp only [Bool.or_eq_true, not_or] at hknown
      have notRunning : r.id ∉ s.ledger.runningIds := (s.running?_isSome_iff r.id).not.mp hknown.1
      have notQueued : r.id ∉ s.ledger.queuedIds := (s.isQueued_iff r.id).not.mp hknown.2
      rcases hopen with hpend | hrun
      · have hne : r.status ≠ .running := by simp [hpend]
        simp only [hne, if_false]
        exact ⟨.single (.takePending (l := s.opened done) r notHeld notRunning notQueued hpend hlisted
          s.calls done rfl), trivial⟩
      · simp only [hrun, if_true]
        rcases s.writeStatus_cases r.id .pending "" with ⟨disk, hw, hwrites⟩ | ⟨e, disk, hw, hstore, -⟩
        · rw [hw]
          have act := Act.takeRunning (c := c) (E := E) (l := s.opened done) r disk.store notHeld
            notRunning notQueued hrun hlisted hwrites s.calls done rfl
          simp only [Recovery.take, hrun] at act
          exact ⟨.single act, rfl⟩
        · rw [hw]
          exact ⟨(opened_disk hstore done).symm ▸ .refl, rfl⟩

theorem listed_of_listPending {s : State} {disk : Disk} {records : List Record}
    (h : s.disk.listPending = (.ok records, disk)) : ({ s with disk } : State).Listed records := by
  have hstore : disk.store = s.disk.store := by
    rw [← s.disk.store_listPending, h]
  have hpending := Disk.listPending_eq_ok h
  refine ⟨fun r hr => (Store.row?_of_mem_listPending hpending hr).2, ?_⟩
  simp only [hstore]
  intro hk
  exact ⟨Store.nodup_listPending hk hpending, fun r hr =>
    (Store.row?_of_mem_listPending hpending hr).1 hk⟩

theorem Listed.tail {s : State} {r : Record} {records : List Record}
    (h : s.Listed (r :: records)) (done : Recovery) :
    (s.recoverRecord c done r).2.Listed records := by
  obtain ⟨hids, hframe⟩ := s.recoverRecord_frame (c := c) done r
  refine ⟨fun x hx => h.1 x (List.mem_cons_of_mem r hx), ?_⟩
  intro hk
  have hks : s.disk.store.Keyed := by
    unfold Store.Keyed at hk ⊢
    rwa [hids] at hk
  obtain ⟨hnodup, hstatus⟩ := h.2 hks
  obtain ⟨hr, hnodup⟩ := List.nodup_cons.mp hnodup
  refine ⟨hnodup, ?_⟩
  intro x hx
  have hne : x.id ≠ r.id := fun heq => hr (heq ▸ List.mem_map_of_mem hx)
  rw [hframe x.id hne]
  exact hstatus x (List.mem_cons_of_mem r hx)

theorem recoverRecords_acts (records : List Record) (s : State) (done : Recovery)
    (h : s.Listed records) :
    let w := recoverRecords c records s done
    ∃ last, ActsAside c E (s.opened done) (w.2.opened last) ∧ ∀ final, w.1 = .ok final → last = final := by
  induction records generalizing s done with
  | nil => exact ⟨done, .refl, fun final heq => by cases heq; rfl⟩
  | cons r records ih =>
    have hlisted : s.disk.store.Keyed → s.disk.store.row? r.id = some r.row :=
      fun hk => (h.2 hk).2 r List.mem_cons_self
    obtain ⟨hact, hworkers⟩ := s.recoverRecord_act (c := c) (E := E) done r (h.1 r List.mem_cons_self) hlisted
    have htail := h.tail (c := c) done
    unfold recoverRecords
    generalize hw : s.recoverRecord c done r = w at hact hworkers htail
    obtain ⟨result, t⟩ := w
    have hfirst : ActsAside c E (s.opened done) (t.opened (done.after result)) := by
      generalize hl : t.opened (done.after result) = l at hact
      cases hact with
      | refl => exact .refl
      | single act =>
        subst hl
        exact .single ⟨act, hworkers⟩
    -- A refused write ends the loop; what was queued by then stays queued.
    cases result with
    | ok next =>
      obtain ⟨last, hrest, hlast⟩ := ih t next htail
      exact ⟨last, hfirst.trans hrest, hlast⟩
    | error e => exact ⟨done, hfirst, fun final heq => by cases heq⟩

/-- A recovery is a row of acts that leave the workers alone. -/
theorem recover_acts (s : State) : ActsAside c E s.ledger (s.recover c).2.ledger := by
  have hstore := s.disk.store_listPending
  unfold recover
  generalize hlist : s.disk.listPending = w at hstore
  obtain ⟨result, disk⟩ := w
  cases result with
  | error e => exact (ledger_disk hstore).symm ▸ .refl
  | ok records =>
    have hstore : disk.store = s.disk.store := hstore
    have arrived : ActsAside c E s.ledger (s.opened {}) := .single ⟨.arrive, rfl⟩
    obtain ⟨last, hrow, hlast⟩ :=
      recoverRecords_acts (c := c) (E := E) records { s with disk } {} (listed_of_listPending hlist)
    rw [opened_disk hstore] at hrow
    simp only
    generalize hw : recoverRecords c records { s with disk } {} = w at hrow hlast
    obtain ⟨result, t⟩ := w
    cases result with
    | error e => exact (arrived.trans hrow).tail ⟨.breakOff t.calls last.effects rfl, rfl⟩
    | ok done =>
      obtain rfl := hlast done rfl
      exact arrived.trans hrow

theorem perform_ledger (s : State) (e : Effect) :
    (s.perform e).ledger = s.ledger.note e.happenings := by
  cases e <;> rfl

theorem resume_act (s : State) (call : Nat) : OneAct c E s.ledger (s.resume call).ledger := by
  unfold resume
  split
  · exact .refl
  · rename_i hdone
    exact .single (.callReturn call hdone)
  · rename_i e es hnext
    rw [perform_ledger]
    exact .single (.callEffect call e es hnext)

/-! ## The loop -/

theorem claimNext_act (s : State) : OneAct c E s.ledger s.claimNext.2.ledger := by
  unfold claimNext
  split
  · exact .refl
  · rename_i task rest hqueue
    rcases s.writeStatus_cases task.id .running "" with ⟨disk, hw, hwrites⟩ | ⟨e, disk, hw, hstore, -⟩
    · rw [hw]
      exact .single (.claim task rest disk.store hqueue hwrites)
    · rw [hw]
      exact (ledger_disk hstore).symm ▸ .refl

theorem stepLoop_act (s : State) (turn : Turn) : OneAct c E s.ledger (s.stepLoop turn).ledger := by
  unfold stepLoop
  split
  case h_5 =>
    have hacts := s.claimNext_act (c := c) (E := E)
    generalize s.claimNext = w at hacts
    obtain ⟨result, t⟩ := w
    cases result <;> exact hacts
  case h_14 => exact .single .stopAll
  case h_16 => exact .single .giveUpAll
  -- The other turns are about the loop itself, the permits and the link.
  all_goals first
    | exact .refl
    | split <;> exact .refl

/-! ## Workers -/

theorem ledger_setPhase (s : State) (seq : Nat) (p : Phase) :
    (s.setPhase seq p).ledger = s.ledger.setPhase seq p := rfl

/-- Where a worker waits for its fetcher or its storage: the phase to which their answer leads it. -/
def heed (w : Worker) (answer : Answer) : Option Phase :=
  match w.phase, answer with
  | .fetching t, .fetched (.ok ()) => some (.storing t)
  | .fetching _, .fetched (.error failure) => some (.ended (.error failure))
  | .storing t, .stored result => some (.stored t result)
  | _, _ => none

/-- There it goes on as it is answered, unless it was told to stop. -/
def Heeds (w : Worker) (answer : Answer) (p : Phase) : Prop :=
  ∀ t, w.phase = .fetching t ∨ w.phase = .storing t → w.told = true ∨ heed w answer = some p

/-- What a step of the worker `w` makes of a state, when the worker is told `answer`. -/
inductive Worked (c : Setup) (s : State) (w : Worker) (answer : Answer) : State → Prop
  | start (phase : w.phase = .claimed) :
      Worked c s w answer
        ((s.note (.reported (.started w.task.id w.task.attempts))).setWorker w.seq fun w =>
          { w with phase := openingPhase c w.task, started := s.now })
  | advance (p : Phase) (hs : List Happening) (next : Next c s.ledger w p hs)
      (heeds : Heeds w answer p) (unwritten : ∀ e attempt, w.phase ≠ .writing e attempt) :
      Worked c s w answer (({ s with history := hs ++ s.history } : State).setPhase w.seq p)
  /-- The store refuses a status: it is tried again, except after the last try and with a record that is
  gone. -/
  | refused (e : Ending) (attempt : Nat) (err : Store.Error) (disk : Disk) (p : Phase) (go : answer = .go)
      (phase : w.phase = .writing e attempt) (store : disk.store = s.disk.store)
      (tried : (s.writeStatus w.task.id e.status e.error).1 = .error err)
      (reason : attempt < writeAttempts ∧ p = .pausing e attempt ∨
        (writeAttempts ≤ attempt ∨ ∃ x, err = .notFound x) ∧ p = givenUpPhase e) :
      Worked c s w answer (({ s with disk } : State).setPhase w.seq p)
  | finish (e : Ending) (attempt : Nat) (disk : Disk) (go : answer = .go)
      (phase : w.phase = .writing e attempt) (releases : e.releases = true)
      (tried : (s.writeStatus w.task.id e.status e.error).1 = .ok ())
      (writes : s.ledger.Writes w.task.id e.status e.error disk.store) :
      Worked c s w answer
        ((({ s with disk } : State).note (.wrote w.task.id e.status e.error)).release w.task.id |>.setPhase
          w.seq (storedStatusPhase w.task e))
  | store (e : Ending) (attempt : Nat) (disk : Disk) (go : answer = .go)
      (phase : w.phase = .writing e attempt) (keeps : e.releases = false)
      (tried : (s.writeStatus w.task.id e.status e.error).1 = .ok ())
      (writes : s.ledger.Writes w.task.id e.status e.error disk.store) :
      Worked c s w answer
        ((({ s with disk } : State).note (.wrote w.task.id e.status e.error)).setPhase w.seq
          (storedStatusPhase w.task e))
  | letGo (es : List Effect)
      (reason : w.phase = .leaving ∧ es = [.report (.interrupted w.task.id)] ∨
        w.phase = .abandoning ∧ es = []) :
      Worked c s w answer ((s.letGo w.task.id).setPhase w.seq (.effects es))
  | requeue (failure : Failure) (remaining : Nat) (phase : w.phase = .requeueing failure remaining)
      (unasked : s.ledger.requested w.task.id = false) :
      Worked c s w answer
        (({ (s.release w.task.id).note (.reported (.retryScheduled w.task.id remaining failure)) with
            queue := s.queue ++ [{ w.task with remaining }] } : State).note (.enqueued w.task.id) |>.setPhase
          w.seq (.effects [.wake]))
  | holdBack (failure : Failure) (remaining : Nat) (phase : w.phase = .requeueing failure remaining)
      (asked : s.ledger.requested w.task.id = true) :
      Worked c s w answer
        (({ s.release w.task.id with cancelling := s.cancelling ++ [w.task.id] } : State).setPhase w.seq
          (.writing .lateCancel 1))
  | clear (phase : w.phase = .clearing) :
      Worked c s w answer
        (({ s with cancelling := s.cancelling.erase w.task.id } : State).setPhase w.seq
          (.effects [.report (.cancelled w.task.id)]))
  | effect (e : Effect) (es : List Effect) (phase : w.phase = .effects (e :: es)) :
      Worked c s w answer ((s.perform e).setPhase w.seq (.effects es))
  | vanish (ended : w.phase = .effects [] ∨ w.aborted = true ∧ w.phase.waits = true) :
      Worked c s w answer (s.finishWorker w.seq)

theorem tryWrite_worked (s : State) (w : Worker) (e : Ending) (attempt : Nat)
    (phase : w.phase = .writing e attempt) : Worked c s w .go (s.tryWrite w e attempt) := by
  unfold tryWrite
  rcases s.writeStatus_cases w.task.id e.status e.error with
    ⟨disk, hw, hwrites⟩ | ⟨err, disk, hw, hstore, -⟩
  · have tried := congrArg Prod.fst hw
    rw [hw]
    cases hrel : e.releases with
    | true => exact .finish e attempt disk rfl phase hrel tried hwrites
    | false => exact .store e attempt disk rfl phase hrel tried hwrites
  · have tried := congrArg Prod.fst hw
    rw [hw]
    have tries : Worked c s w .go
        (if attempt < writeAttempts then
          ({ s with disk } : State).setPhase w.seq (.pausing e attempt)
        else ({ s with disk } : State).setPhase w.seq (givenUpPhase e)) := by
      split
      · rename_i again
        exact .refused e attempt err disk _ rfl phase hstore tried (Or.inl ⟨again, rfl⟩)
      · rename_i last
        exact .refused e attempt err disk _ rfl phase hstore tried
          (Or.inr ⟨Or.inl (Nat.le_of_not_lt last), rfl⟩)
    -- A record that is gone is not tried again, however many tries are left.
    cases err with
    | notFound x =>
      exact .refused e attempt _ disk _ rfl phase hstore tried (Or.inr ⟨Or.inr ⟨x, rfl⟩, rfl⟩)
    | _ => exact tries

theorem requeue_worked (s : State) (w : Worker) (answer : Answer) (failure : Failure) (remaining : Nat)
    (phase : w.phase = .requeueing failure remaining) :
    Worked c s w answer (s.requeue w failure remaining) := by
  unfold requeue
  show Worked c s w answer (if s.ledger.requested w.task.id then _ else _ : State)
  split
  · rename_i asked
    exact .holdBack failure remaining phase asked
  · rename_i unasked
    exact .requeue failure remaining phase (by simpa using unasked)

/-- An answer that does not fit its phase leaves a worker where it is; any other makes it take its next
step. -/
theorem stepWorker_cases (s : State) (seq : Nat) (answer : Answer) :
    s.stepWorker c seq answer = s ∨
      ∃ w ∈ s.workers, w.seq = seq ∧ Worked c s w answer (s.stepWorker c seq answer) := by
  unfold stepWorker
  split
  · exact Or.inl rfl
  · rename_i w hfind
    have here : w ∈ s.workers := List.mem_of_find?_eq_some hfind
    have hseq : w.seq = seq := by simpa using List.find?_some hfind
    subst hseq
    have worked {t : State} (h : Worked c s w answer t) :
        t = s ∨ ∃ v ∈ s.workers, v.seq = w.seq ∧ Worked c s v answer t :=
      Or.inr ⟨w, here, rfl, h⟩
    have advanced {p : Phase} {hs : List Happening} (next : Next c s.ledger w p hs)
        (heeds : Heeds w answer p) (unwritten : ∀ e attempt, w.phase ≠ .writing e attempt) :
        ({ s with history := hs ++ s.history } : State).setPhase w.seq p = s ∨
          ∃ v ∈ s.workers, v.seq = w.seq ∧
            Worked c s v answer (({ s with history := hs ++ s.history } : State).setPhase w.seq p) :=
      worked (.advance p hs next heeds unwritten)
    -- Elsewhere the answer does not matter.
    have anyhow {p : Phase} (elsewhere : ∀ t, w.phase ≠ .fetching t ∧ w.phase ≠ .storing t) :
        Heeds w answer p :=
      fun t waits => absurd waits (by simp [elsewhere t])
    -- One bullet for each case of the definition, in its order.
    split
    · rename_i phase
      exact worked (.start phase)
    · rename_i t phase
      exact advanced (.fetch t phase) (anyhow (by simp [phase])) (by simp [phase])
    · rename_i t phase
      split
      · rename_i told
        exact advanced (.stop t (.inl phase) told) (fun _ _ => Or.inl told) (by simp [phase])
      · exact Or.inl rfl
    · rename_i t phase
      split
      · rename_i told
        exact advanced (.stop t (.inr phase) told) (fun _ _ => Or.inl told) (by simp [phase])
      · exact Or.inl rfl
    · rename_i t result phase
      cases result with
      | ok u => exact advanced (.fetched t phase) (fun _ _ => Or.inr (by simp [heed, phase])) (by simp [phase])
      | error failure =>
        exact advanced (.unfetched t failure phase) (fun _ _ => Or.inr (by simp [heed, phase]))
          (by simp [phase])
    · rename_i t result phase
      exact advanced (.stored t result phase) (fun _ _ => Or.inr (by simp [heed, phase])) (by simp [phase])
    · rename_i t result phase
      exact advanced (.judge t result phase) (anyhow (by simp [phase])) (by simp [phase])
    · rename_i t phase
      exact advanced (.rolledBack t phase) (anyhow (by simp [phase])) (by simp [phase])
    · rename_i result phase
      exact advanced (.settle result _ phase) (anyhow (by simp [phase])) (by simp [phase])
    · rename_i phase
      show s.setPhase w.seq (if s.ledger.requested w.task.id then _ else _) = s ∨
        ∃ v ∈ s.workers, v.seq = w.seq ∧
          Worked c s v _ (s.setPhase w.seq (if s.ledger.requested w.task.id then _ else _))
      split
      · rename_i asked
        exact advanced (.cancelled phase asked) (anyhow (by simp [phase])) (by simp [phase])
      · rename_i unasked
        exact advanced (.interrupted phase (by simpa using unasked)) (anyhow (by simp [phase]))
          (by simp [phase])
    · rename_i phase
      exact worked (.letGo _ (Or.inl ⟨phase, rfl⟩))
    · rename_i e attempt phase
      exact worked (s.tryWrite_worked w e attempt phase)
    · rename_i e attempt phase
      split
      · exact Or.inl rfl
      · rename_i aborted
        exact advanced (.again e attempt phase (by simpa using aborted)) (anyhow (by simp [phase]))
          (by simp [phase])
    · rename_i phase
      exact worked (.letGo _ (Or.inr ⟨phase, rfl⟩))
    · rename_i failure remaining phase
      exact worked (s.requeue_worked w _ failure remaining phase)
    · rename_i phase
      exact worked (.clear phase)
    · rename_i phase
      exact worked (.vanish (Or.inl phase))
    · rename_i e es phase
      exact worked (.effect e es phase)
    · split
      · rename_i torn
        exact worked (.vanish (Or.inr (by simpa using torn)))
      · exact Or.inl rfl
    · exact Or.inl rfl

theorem Worked.act {s t : State} {w : Worker} {answer : Answer} (here : w ∈ s.workers)
    (worked : Worked c s w answer t) : Act c E s.ledger t.ledger := by
  cases worked with
  | start phase => exact .start w s.now here phase
  | advance p hs next => exact .advance w p hs here next
  | refused e attempt err disk p go phase store tried reason =>
    rw [ledger_setPhase, ledger_disk store]
    rcases reason with ⟨again, rfl⟩ | ⟨-, rfl⟩
    · exact .advance w _ [] here (.refused e attempt phase again)
    · exact .advance w _ [] here (.givenUp e attempt phase)
  | finish e attempt disk go phase releases tried writes =>
    exact .finish w e attempt disk.store here phase releases writes
  | store e attempt disk go phase keeps tried writes =>
    cases e with
    | retry failure left => exact .handBack w failure left attempt disk.store here phase writes
    | lateCancel => exact .lateStore w attempt disk.store here phase writes
    | completed | cancelled | failed => cases keeps
  | letGo es reason =>
    rcases reason with ⟨phase, rfl⟩ | ⟨phase, rfl⟩
    · exact .letGo w _ here (.inl phase) (.inl ⟨phase, rfl⟩)
    · exact .letGo w _ here (.inr phase) (.inr rfl)
  | requeue failure remaining phase unasked => exact .requeue w failure remaining here phase unasked
  | holdBack failure remaining phase asked => exact .holdBack w failure remaining here phase asked
  | clear phase => exact .clear w here phase
  | effect e es phase =>
    rw [ledger_setPhase, perform_ledger]
    exact .workerEffect w e es here phase
  | vanish ended => exact .vanish w here ended

theorem stepWorker_act (s : State) (seq : Nat) (answer : Answer) :
    OneAct c E s.ledger (s.stepWorker c seq answer).ledger := by
  rcases s.stepWorker_cases (c := c) seq answer with same | ⟨w, here, -, worked⟩
  · exact same.symm ▸ .refl
  · exact .single (worked.act here)

/-! ## Moves -/

/-- A move is a recovery, or it does one act or nothing to the ledger, if submissions come with new ids
and records come and go only as `E` allows. -/
theorem step_act (s : State) (m : Move)
    (submits : ∀ id kind payload title, m = .submit id kind payload title → s.ledger.isNew id ∧
      ∀ store, s.disk.store.put (Record.new id kind payload title s.now) = .ok store → E s.ledger store)
    (puts : ∀ r store, m = .putRecord r → s.disk.store.put r = .ok store → E s.ledger store)
    (deletes : ∀ id, m = .deleteRecord id → E s.ledger (s.disk.store.delete id).2) :
    m = .recover ∨ OneAct c E s.ledger (s.step c m).ledger := by
  cases m with
  | recover => exact Or.inl rfl
  | submit id kind payload title =>
    obtain ⟨new, allowed⟩ := submits id kind payload title rfl
    exact Or.inr (s.submit_act id kind payload title new allowed)
  | cancel id => exact Or.inr (s.cancel_act id)
  | resume call => exact Or.inr (s.resume_act call)
  | loop turn => exact Or.inr (s.stepLoop_act turn)
  | worker seq answer => exact Or.inr (s.stepWorker_act seq answer)
  | putRecord r =>
    right
    simp only [step]
    split
    · rename_i store hput
      exact .single (.edit store (puts r store rfl hput))
    · exact .refl
  | deleteRecord id => exact Or.inr (.single (.edit _ (deletes id rfl)))
  | start =>
    right
    simp only [step, start]
    split <;> exact .refl
  | link link =>
    right
    simp only [step, setLink]
    split <;> exact .refl
  | shutdown | unwatch | clock _ | outage _ _ | heal => exact Or.inr .refl

/-- So what a move does to the ledger is a row of acts. -/
theorem step_acts {s : State} {m : Move}
    (h : m = .recover ∨ OneAct c E s.ledger (s.step c m).ledger) :
    Acts c E s.ledger (s.step c m).ledger := by
  rcases h with rfl | act
  · exact s.recover_acts.acts
  · exact act.to_reflTransGen

end State

/-- A task is submitted under an id that nobody has used. -/
def Move.Fresh (s : State) : Move → Prop
  | .submit id .. => s.ledger.isNew id
  | _ => True

/-- Besides, records from outside come under new ids, and no record is deleted. -/
def Move.Orderly (s : State) : Move → Prop
  | .submit id .. => s.ledger.isNew id
  | .putRecord r => s.ledger.isNew r.id
  | .deleteRecord _ => False
  | _ => True

/-- Is the move made within the scheduler, without a new task and without anybody else at the store? -/
def Move.inner : Move → Bool
  | .submit .. | .putRecord _ | .deleteRecord _ => false
  | _ => true

theorem Move.fresh_or_submit (s : State) (m : Move) :
    m.Fresh s ∨ ∃ id kind payload title, m = .submit id kind payload title := by
  cases m with
  | submit id kind payload title => exact Or.inr ⟨id, kind, payload, title, rfl⟩
  | _ => exact Or.inl trivial

instance (l : Ledger) (id : String) : Decidable (l.isNew id) :=
  inferInstanceAs (Decidable (_ ∧ _))

instance (s : State) (m : Move) : Decidable (m.Fresh s) :=
  match m with
  | .submit id .. => inferInstanceAs (Decidable (s.ledger.isNew id))
  | .cancel _ | .recover | .resume _ | .start | .shutdown | .loop _ | .worker .. | .link _ | .unwatch
  | .clock _ | .outage .. | .heal | .putRecord _ | .deleteRecord _ => .isTrue trivial

instance (s : State) (m : Move) : Decidable (m.Orderly s) :=
  match m with
  | .submit id .. => inferInstanceAs (Decidable (s.ledger.isNew id))
  | .putRecord r => inferInstanceAs (Decidable (s.ledger.isNew r.id))
  | .deleteRecord _ => .isFalse id
  | .cancel _ | .recover | .resume _ | .start | .shutdown | .loop _ | .worker .. | .link _ | .unwatch
  | .clock _ | .outage .. | .heal => .isTrue trivial

namespace State

theorem act_of_fresh {s : State} {m : Move} (h : m.Fresh s) :
    m = .recover ∨ OneAct c .any s.ledger (s.step c m).ledger := by
  refine s.step_act m ?_ ?_ ?_
  · rintro id kind payload title rfl
    exact ⟨h, fun store put => Or.inl ⟨_, put⟩⟩
  · rintro r store rfl hput
    exact Or.inl ⟨r, hput⟩
  · rintro id rfl
    exact Or.inr ⟨id, rfl⟩

theorem act_of_orderly {s : State} {m : Move} (h : m.Orderly s) :
    m = .recover ∨ OneAct c .additions s.ledger (s.step c m).ledger := by
  refine s.step_act m ?_ ?_ ?_
  · rintro id kind payload title rfl
    exact ⟨h, fun store put => ⟨.new id kind payload title s.now, h, put⟩⟩
  · rintro r store rfl hput
    exact ⟨r, h, hput⟩
  · rintro id rfl
    exact h.elim

theorem acts_of_inner {s : State} {m : Move} (h : m.inner = true) :
    Acts c .none s.ledger (s.step c m).ledger := by
  refine step_acts (s.step_act m ?_ ?_ ?_)
  · rintro id kind payload title rfl
    cases h
  · rintro r store rfl
    cases h
  · rintro id rfl
    cases h

/-! ## Runs -/

/-- A run whose every move is `ok` in the state in which it is made. -/
def Follows (c : Setup) (ok : State → Move → Prop) : State → List Move → Prop
  | _, [] => True
  | s, m :: ms => ok s m ∧ Follows c ok (s.step c m) ms

instance Follows.decidable {ok : State → Move → Prop} [∀ s m, Decidable (ok s m)] :
    (s : State) → (ms : List Move) → Decidable (s.Follows c ok ms)
  | _, [] => .isTrue trivial
  | s, m :: ms => @instDecidableAnd _ _ _ (Follows.decidable (s.step c m) ms)

theorem Follows.append {ok : State → Move → Prop} {s : State} {xs ys : List Move} :
    s.Follows c ok (xs ++ ys) ↔ s.Follows c ok xs ∧ (s.run c xs).Follows c ok ys := by
  induction xs generalizing s with
  | nil => simp [Follows, run]
  | cons m xs ih =>
    show ok s m ∧ (s.step c m).Follows c ok (xs ++ ys) ↔
      (ok s m ∧ (s.step c m).Follows c ok xs) ∧ ((s.step c m).run c xs).Follows c ok ys
    rw [ih, and_assoc]

theorem run_concat (s : State) (ms : List Move) (m : Move) :
    s.run c (ms ++ [m]) = (s.run c ms).step c m := by
  rw [run_append]
  rfl

theorem Follows.concat {ok : State → Move → Prop} {s : State} {ms : List Move} {m : Move}
    (h : s.Follows c ok ms) (last : ok (s.run c ms) m) : s.Follows c ok (ms ++ [m]) :=
  Follows.append.mpr ⟨h, last, trivial⟩

/-- A run is a row of acts if its moves are. -/
theorem Follows.acts {ok : State → Move → Prop}
    (moves : ∀ s m, ok s m → Acts c E s.ledger (s.step c m).ledger) {s : State} {ms : List Move}
    (h : s.Follows c ok ms) : Acts c E s.ledger (s.run c ms).ledger := by
  induction ms generalizing s with
  | nil => exact .refl
  | cons m ms ih => exact (moves s m h.1).trans (ih h.2)

theorem run_acts_of_fresh {s : State} {ms : List Move} (h : s.Follows c Move.Fresh ms) :
    Acts c .any s.ledger (s.run c ms).ledger :=
  h.acts fun _ _ ok => step_acts (act_of_fresh ok)

theorem run_acts_of_orderly {s : State} {ms : List Move} (h : s.Follows c Move.Orderly ms) :
    Acts c .additions s.ledger (s.run c ms).ledger :=
  h.acts fun _ _ ok => step_acts (act_of_orderly ok)

end State

/-- One worker and one kind of task, for the runs of the examples. -/
def Setup.small (maxRetries : Nat) : Setup :=
  { workers := 1, maxRetries, kinds := Registry.ofList [("mem", ⟨true⟩)] }

end Courier.Scheduler
