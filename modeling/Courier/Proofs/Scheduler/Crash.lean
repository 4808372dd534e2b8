/-
# Courier.Proofs.Scheduler.Crash -- what a new scheduler takes over

A crash loses all that a scheduler has in memory and nothing of what is in the store. So whatever the
store says at any point of a run has to be enough to go on with. `State.recover_takesOver` is about one
recovery: a new scheduler, on any store and under any outages, whose recovery succeeds has every
unfinished task in its queue and has changed nothing else. `State.nothing_lost_over_crash` adds where
the store comes from: any run of another scheduler, cut off anywhere. A submitted task is in that store
until somebody deletes it, whatever else happens to it.
-/
import Courier.Proofs.Scheduler.Recovery

namespace Courier

/-- What a recovery makes of a row: tasks that were running start again. -/
def Row.restarted (now : Int) (row : Row) : Row :=
  if row.status = .known .running then row.moved .pending "" now else row

namespace Scheduler

/-- The queue entry of a stored task, with a whole budget. -/
def Queued.ofRow (c : Setup) (row : Row) : Queued where
  id := row.id
  title := row.title
  kind := row.kind
  payload := row.payload
  createdAt := row.createdAt
  remaining := c.maxRetries
  attempts := 0

theorem Queued.ofRecord_eq {c : Setup} {row : Row} {r : Record} (h : row.record = .ok r) :
    Queued.ofRecord c r = .ofRow c row := by
  unfold Row.record at h
  split at h
  · cases h
  · cases h
    rfl

/-- A new scheduler on what another one has left in the store. -/
def State.anew (c : Setup) (store : Store) (outages : List (Operation × Outage)) (now : Int) : State :=
  { State.init c { store, outages } with now }

/-- A scheduler that has taken over the unfinished tasks of a store and has done nothing else. -/
structure State.TakenOver (c : Setup) (store : Store) (now : Int) (t : State) : Prop where
  each_once : t.queue.Perm ((store.taskRows.filter Row.isUnfinished).map (Queued.ofRow c))
  nodup : t.ledger.queuedIds.Nodup
  oldest_first : t.queue.Pairwise fun a b => a.createdAt ≤ b.createdAt
  budget : ∀ q ∈ t.queue, q.remaining = c.maxRetries ∧ q.attempts = 0
  pending : ∀ q ∈ t.queue, t.disk.store.status? q.id = some .pending
  idle : t.running = [] ∧ t.cancelling = [] ∧ t.workers = []
  none_running : ∀ id, t.disk.store.status? id ≠ some .running
  rows : t.disk.store.taskRows = store.taskRows.map (Row.restarted now)
  marks : t.disk.store.marks? = store.marks?

variable {c : Setup}

namespace State

/-! ## Records -/

/-- What a row becomes when these records have been dealt with. -/
def retake (records : List Record) (now : Int) (row : Row) : Row :=
  if ∃ r ∈ records, r.id = row.id ∧ r.status = .running then row.moved .pending "" now else row

/-- What a recovery does to a scheduler that knows none of its records. -/
structure Retakes (c : Setup) (records : List Record) (s t : State) : Prop where
  queue : t.queue = s.queue ++ records.map (Queued.ofRecord c)
  running : t.running = s.running
  cancelling : t.cancelling = s.cancelling
  workers : t.workers = s.workers
  now : t.now = s.now
  rows : t.disk.store.taskRows = s.disk.store.taskRows.map (retake records s.now)
  marks : t.disk.store.marks? = s.disk.store.marks?

theorem retake_none (now : Int) : retake [] now = id := by
  funext row
  simp [retake]

theorem retake_one (r : Record) (now : Int) :
    retake [r] now = fun row =>
      if r.id = row.id ∧ r.status = .running then row.moved .pending "" now else row := by
  funext row
  simp [retake]

theorem retake_cons (r : Record) (records : List Record) (now : Int) (row : Row) :
    retake records now (retake [r] now row) = retake (r :: records) now row := by
  by_cases hr : r.id = row.id ∧ r.status = .running
  · -- A row that is dealt with twice is as if it had been dealt with once.
    have hhead : retake [r] now row = row.moved .pending "" now := by
      simp only [retake_one, hr, and_self, if_true]
    have hall : retake (r :: records) now row = row.moved .pending "" now :=
      if_pos ⟨r, List.mem_cons_self, hr⟩
    rw [hhead, hall]
    unfold retake
    split <;> rfl
  · have hhead : retake [r] now row = row := by
      simp only [retake_one, hr, if_false]
    rw [hhead]
    simp only [retake, List.exists_mem_cons_iff, hr, false_or]

theorem Retakes.nil (s : State) : Retakes c [] s s where
  queue := (List.append_nil _).symm
  running := rfl
  cancelling := rfl
  workers := rfl
  now := rfl
  rows := by simp [retake_none]
  marks := rfl

theorem Retakes.cons {r : Record} {records : List Record} {s t u : State} (head : Retakes c [r] s t)
    (rest : Retakes c records t u) : Retakes c (r :: records) s u where
  queue := by
    rw [rest.queue, head.queue, List.append_assoc]
    rfl
  running := rest.running.trans head.running
  cancelling := rest.cancelling.trans head.cancelling
  workers := rest.workers.trans head.workers
  now := rest.now.trans head.now
  rows := by
    rw [rest.rows, head.rows, head.now, List.map_map]
    exact List.map_congr_left fun row _ => retake_cons r records s.now row
  marks := rest.marks.trans head.marks

/-- After a record its task is known, and no other task has become known. -/
theorem Retakes.tracked {r : Record} {s t : State} (h : Retakes c [r] s t) {id : String}
    (hne : id ≠ r.id) (unknown : id ∉ s.ledger.tracked) : id ∉ t.ledger.tracked := by
  have htracked : t.ledger.tracked.Perm (r.id :: s.ledger.tracked) :=
    Ledger.tracked_enter (q := .ofRecord c r) h.queue h.running h.cancelling
  rw [htracked.mem_iff, List.mem_cons, not_or]
  exact ⟨hne, unknown⟩

theorem writeStatus_eq_ok {s t : State} {id : String} {status : Status} {error : String}
    (h : s.writeStatus id status error = (.ok (), t)) :
    ∃ disk, t = { s with disk, history := .wrote id status error :: s.history } ∧
      s.disk.store.updateStatus id status error s.now = .ok disk.store := by
  unfold writeStatus at h
  rcases s.disk.write_cases (.update status) fun store =>
    store.updateStatus id status error s.now with ⟨disk, hw, hstore⟩ | ⟨e, disk, hw, -⟩
  · change s.disk.updateStatus id status error s.now = _ at hw
    rw [hw] at h
    cases h
    exact ⟨disk, rfl, hstore⟩
  · change s.disk.updateStatus id status error s.now = _ at hw
    rw [hw] at h
    cases h

/-- The record of a task that memory does not know of is queued, or the recovery fails. -/
theorem recoverRecord_retakes {s t : State} {done next : Recovery} {r : Record}
    (unknown : r.id ∉ s.ledger.tracked) (h : s.recoverRecord c done r = (.ok next, t)) :
    next = done.take r ∧ Retakes c [r] s t := by
  rw [Ledger.mem_tracked, not_or, not_or] at unknown
  obtain ⟨notQueued, notRunning, notHeld⟩ := unknown
  have held : ¬s.cancelling.contains r.id = true := fun hheld => notHeld (List.contains_iff_mem.mp hheld)
  have known : ¬((s.running? r.id).isSome || s.isQueued r.id) = true := by
    rw [Bool.or_eq_true, running?_isSome_iff, isQueued_iff, not_or]
    exact ⟨notRunning, notQueued⟩
  unfold recoverRecord at h
  rw [if_neg held, if_neg known] at h
  by_cases hrun : r.status = .running
  · simp only [hrun, if_true] at h
    generalize hw : s.writeStatus r.id .pending "" = w at h
    obtain ⟨result, u⟩ := w
    cases result with
    | error e => cases h
    | ok _ =>
      obtain ⟨disk, rfl, hstore⟩ := writeStatus_eq_ok hw
      cases h
      refine ⟨by simp [Recovery.take, hrun], rfl, rfl, rfl, rfl, rfl, ?_, Store.marks?_updateStatus hstore⟩
      refine (Store.updateStatus_eq_ok hstore).2.trans (List.map_congr_left fun row _ => ?_)
      simp [retake_one, hrun, eq_comm]
  · simp only [hrun, if_false] at h
    cases h
    refine ⟨rfl, rfl, rfl, rfl, rfl, rfl, ?_, rfl⟩
    simp [retake_one, hrun]

theorem recoverRecords_retakes (records : List Record) (s : State) (done : Recovery)
    (nodup : (records.map Record.id).Nodup) (unknown : ∀ r ∈ records, r.id ∉ s.ledger.tracked)
    {final : Recovery} {t : State} (h : recoverRecords c records s done = (.ok final, t)) :
    final.recovered.length = done.recovered.length + records.length ∧ Retakes c records s t := by
  induction records generalizing s done with
  | nil =>
    cases h
    exact ⟨rfl, .nil _⟩
  | cons r records ih =>
    obtain ⟨hr, nodup⟩ := List.nodup_cons.mp nodup
    unfold recoverRecords at h
    generalize hw : s.recoverRecord c done r = w at h
    obtain ⟨result, u⟩ := w
    cases result with
    | error e => cases h
    | ok next =>
      -- Only the task of this record has become known, and no other one is of the same task.
      obtain ⟨rfl, head⟩ := recoverRecord_retakes (unknown r List.mem_cons_self) hw
      have unknown' : ∀ x ∈ records, x.id ∉ u.ledger.tracked := by
        intro x hx
        have hne : x.id ≠ r.id := fun heq => hr (heq ▸ List.mem_map_of_mem hx)
        exact head.tracked hne (unknown x (List.mem_cons_of_mem r hx))
      obtain ⟨length, rest⟩ := ih u (done.take r) nodup unknown' h
      refine ⟨?_, head.cons rest⟩
      rw [length]
      simp only [Recovery.take, List.length_append, List.length_cons, List.length_nil]
      omega

/-! ## One recovery -/

theorem map_ofRecord {rows : List Row} {records : List Record}
    (h : List.Forall₂ (fun row r => Row.record row = .ok r) rows records) :
    records.map (Queued.ofRecord c) = rows.map (Queued.ofRow c) := by
  induction h with
  | nil => rfl
  | cons hread _ ih => rw [List.map_cons, List.map_cons, ih, Queued.ofRecord_eq hread]

/-- The listed records say of each row whether it is one of a running task. -/
theorem retake_listed {store : Store} (keyed : store.Keyed) {records : List Record}
    (h : store.listPending = .ok records) (now : Int) {row : Row} (hrow : row ∈ store.taskRows) :
    retake records now row = row.restarted now := by
  have hread := Store.forall₂_of_listPending h
  have hiff : (∃ r ∈ records, r.id = row.id ∧ r.status = .running) ↔ row.status = .known .running := by
    constructor
    · rintro ⟨r, hr, hid, hrun⟩
      obtain ⟨x, hx, hxr⟩ := Store.exists_row_of_mem hread hr
      obtain ⟨hxid, hstatus⟩ := Row.record_eq_ok hxr
      have hxrow : x = row :=
        List.inj_on_of_nodup_map keyed (Store.mem_unfinished.mp hx).1 hrow (hxid.symm.trans hid)
      rw [← hxrow, hstatus, hrun]
    · intro hrun
      have hopen : row.isUnfinished = true := row.isUnfinished_iff.mpr (Or.inr hrun)
      obtain ⟨r, hr, hrid⟩ := List.mem_map.mp
        (Store.map_id_of_forall₂ hread ▸ List.mem_map_of_mem (Store.mem_unfinished.mpr ⟨hrow, hopen⟩))
      refine ⟨r, hr, hrid, ?_⟩
      have hstored := (Store.status?_of_mem_listPending h hr).1 keyed
      rw [hrid, Store.status?, Store.rowStatus?_of_mem keyed hrow, hrun] at hstored
      exact (Option.some.inj hstored).symm
  unfold retake Row.restarted
  simp only [hiff]

theorem oldestFirst_pairwise (rows : List Row) :
    (Store.oldestFirst rows).Pairwise fun a b => a.createdAt ≤ b.createdAt := by
  have hsorted : (rows.mergeSort fun a b => decide (a.createdAt ≤ b.createdAt)).Pairwise
      fun a b => decide (a.createdAt ≤ b.createdAt) = true := by
    apply List.pairwise_mergeSort
    · intro a b c hab hbc
      rw [decide_eq_true_eq] at *
      exact Int.le_trans hab hbc
    · intro a b
      rw [Bool.or_eq_true, decide_eq_true_eq, decide_eq_true_eq]
      exact Int.le_total a.createdAt b.createdAt
  exact hsorted.imp of_decide_eq_true

/-- A restart leaves the ids as they are, and nothing running. -/
theorem status?_restarted {rows : List Row} (now : Int) (id : String) :
    Store.rowStatus? (rows.map (Row.restarted now)) id =
      (Store.rowStatus? rows id).map fun status => if status = .running then .pending else status := by
  induction rows with
  | nil => rfl
  | cons row rows ih =>
    have hid : (row.restarted now).id = row.id := by
      unfold Row.restarted
      split <;> rfl
    rw [List.map_cons, Store.rowStatus?_cons, Store.rowStatus?_cons, ih, hid]
    split
    · cases hstatus : row.status with
      | foreign text => simp [Row.restarted, hstatus, Column.known?]
      | known status =>
        by_cases hrun : status = .running
        · simp [Row.restarted, hstatus, hrun, Row.moved]
        · simp [Row.restarted, hstatus, hrun]
    · rfl

/-- The records that a new scheduler has listed are all that is unfinished. -/
theorem Retakes.takenOver {store : Store} (keyed : store.Keyed) {records : List Record}
    (listed : store.listPending = .ok records) {outages : List (Operation × Outage)} {now : Int}
    {disk : Disk} (same : disk.store = store) {t : State}
    (h : Retakes c records { anew c store outages now with disk } t) : t.TakenOver c store now := by
  have hperm : store.unfinished.Perm (store.taskRows.filter Row.isUnfinished) :=
    List.mergeSort_perm _ _
  have queue : t.queue = store.unfinished.map (Queued.ofRow c) :=
    h.queue.trans (map_ofRecord (Store.forall₂_of_listPending listed))
  have rows : t.disk.store.taskRows = store.taskRows.map (Row.restarted now) := by
    rw [h.rows]
    simp only [same]
    exact List.map_congr_left fun row hrow => retake_listed keyed listed now hrow
  have status (id : String) : t.disk.store.status? id =
      (store.status? id).map fun status => if status = .running then .pending else status := by
    rw [Store.status?, rows, status?_restarted]
    rfl
  refine ⟨queue ▸ hperm.map _, ?nodup, ?oldest_first, ?budget, ?pending,
    ⟨h.running, h.cancelling, h.workers⟩, ?none_running, rows, h.marks.trans (congrArg _ same)⟩
  case nodup =>
    have ids : t.ledger.queuedIds = store.unfinished.map Row.id := by
      rw [Ledger.queuedIds, show t.ledger.queue = t.queue from rfl, queue, List.map_map]
      rfl
    rw [ids, (hperm.map Row.id).nodup_iff]
    exact keyed.sublist (List.filter_sublist.map Row.id)
  case oldest_first =>
    rw [queue, List.pairwise_map]
    exact oldestFirst_pairwise _
  case budget =>
    intro q hq
    rw [queue] at hq
    obtain ⟨row, -, rfl⟩ := List.mem_map.mp hq
    exact ⟨rfl, rfl⟩
  case pending =>
    intro q hq
    rw [queue] at hq
    obtain ⟨row, hrow, rfl⟩ := List.mem_map.mp hq
    obtain ⟨hrow, hopen⟩ := Store.mem_unfinished.mp hrow
    show t.disk.store.status? row.id = some .pending
    rw [status, Store.status?, Store.rowStatus?_of_mem keyed hrow]
    rcases row.isUnfinished_iff.mp hopen with hs | hs <;> rw [hs] <;> rfl
  case none_running =>
    intro id running
    rw [status, Option.map_eq_some_iff] at running
    obtain ⟨before, -, running⟩ := running
    split at running
    · cases running
    · rename_i hne
      exact hne running

/-- A recovery of a new scheduler that succeeds takes over what is unfinished. -/
theorem recover_takesOver {store : Store} (keyed : store.Keyed)
    (outages : List (Operation × Outage)) (now : Int) {n : Nat} {t : State}
    (h : (anew c store outages now).recover c = (.ok n, t)) :
    n = (store.taskRows.filter Row.isUnfinished).length ∧ t.TakenOver c store now := by
  unfold recover at h
  generalize hlist : (anew c store outages now).disk.listPending = w at h
  obtain ⟨result, disk⟩ := w
  cases result with
  | error e => cases h
  | ok records =>
    have same : disk.store = store :=
      (congrArg (fun w => w.2.store) hlist).symm.trans (Disk.store_listPending _)
    have listed : store.listPending = .ok records := Disk.listPending_eq_ok hlist
    simp only at h
    generalize hw : recoverRecords c records { anew c store outages now with disk } {} = w at h
    obtain ⟨result, u⟩ := w
    cases result with
    | error e => cases h
    | ok final =>
      cases h
      obtain ⟨hlength, took⟩ := recoverRecords_retakes records _ {} (Store.nodup_listPending keyed listed)
        (fun r _ => List.not_mem_nil) hw
      refine ⟨?_, Retakes.takenOver keyed listed same ⟨took.queue, took.running, took.cancelling,
        took.workers, took.now, took.rows, took.marks⟩⟩
      have hperm : store.unfinished.Perm (store.taskRows.filter Row.isUnfinished) :=
        List.mergeSort_perm _ _
      rw [hlength, ← (Store.forall₂_of_listPending listed).length_eq, ← hperm.length_eq]
      exact Nat.zero_add _

/-! ## Runs -/

end State

/-- Anything but the deletion of one record. -/
def Edits.sparing (id : String) : Edits := fun l store =>
  (∃ r, l.store.put r = .ok store) ∨ ∃ x, x ≠ id ∧ store = (l.store.delete x).2

namespace Ledger

variable {l l' : Ledger}

theorem keyed_of_act (act : Act c .any l l') (keyed : l.store.Keyed) : l'.store.Keyed := by
  rcases act.store_cases with same | (⟨r, put⟩ | ⟨id, deleted⟩) | ⟨id, status, error, writes, -⟩
  · exact same.symm ▸ keyed
  · exact keyed.put put
  · exact deleted.symm ▸ keyed.delete id
  · exact writes.keyed keyed

/-- A record stays until somebody deletes it. -/
theorem stored_of_act {id : String} (act : Act c (.sparing id) l l')
    (stored : ∃ status, l.store.status? id = some status) :
    ∃ status, l'.store.status? id = some status := by
  rcases act.store_cases with same | (⟨r, put⟩ | ⟨x, hne, deleted⟩) | ⟨x, status, error, writes, -⟩
  · exact same.symm ▸ stored
  · rw [Store.status?_put put]
    split
    · exact ⟨_, rfl⟩
    · exact stored
  · rw [deleted, Store.status?_delete_of_ne (Ne.symm hne)]
    exact stored
  · rw [writes.status?]
    split
    · exact ⟨_, rfl⟩
    · exact stored

end Ledger

namespace State

theorem keyed_of_fresh {disk : Disk} (keyed : disk.store.Keyed) {ms : List Move}
    (run : (State.init c disk).Follows c Move.Fresh ms) :
    ((State.init c disk).run c ms).disk.store.Keyed :=
  (run_acts_of_fresh run).preserves (P := fun l => l.store.Keyed)
    (fun _ _ keyed act => Ledger.keyed_of_act act keyed) keyed

/-- Over a run that does not delete a record, the record stays. -/
theorem stored_of_fresh {id : String} {s : State} {ms : List Move} (run : s.Follows c Move.Fresh ms)
    (spared : .deleteRecord id ∉ ms) (stored : ∃ status, s.disk.store.status? id = some status) :
    ∃ status, (s.run c ms).disk.store.status? id = some status := by
  induction ms generalizing s with
  | nil => exact stored
  | cons m ms ih =>
    obtain ⟨hm, hms⟩ := not_or.mp (List.mem_cons.not.mp spared)
    have act : m = .recover ∨ OneAct c (.sparing id) s.ledger (s.step c m).ledger := by
      refine s.step_act m ?_ (fun r store _ put => Or.inl ⟨r, put⟩) ?_
      · rintro x kind payload title rfl
        exact ⟨run.1, fun store put => Or.inl ⟨_, put⟩⟩
      · rintro x rfl
        refine Or.inr ⟨x, ?_, rfl⟩
        rintro rfl
        exact hm rfl
    exact ih run.2 hms ((step_acts act).preserves
      (P := fun l => ∃ status, l.store.status? id = some status)
      (fun _ _ stored act => Ledger.stored_of_act act stored) stored)

/-- An unfinished task is in the queue of whoever takes over, and the end of a task is kept. -/
theorem TakenOver.queued_or_ended {store : Store} {now : Int} {t : State} (h : t.TakenOver c store now)
    {id : String} (stored : ∃ status, store.status? id = some status) :
    id ∈ t.ledger.queuedIds ∨
      ∃ status, t.disk.store.status? id = some status ∧ status.isTerminal = true := by
  obtain ⟨status, stored⟩ := stored
  obtain ⟨row, hfind, hknown⟩ := Option.bind_eq_some_iff.mp stored
  have hrow : row ∈ store.taskRows := List.mem_of_find?_eq_some hfind
  have hid : row.id = id := by simpa using List.find?_some hfind
  have hstatus := Column.known?_eq_some.mp hknown
  by_cases terminal : status.isTerminal = true
  · right
    refine ⟨status, ?_, terminal⟩
    rw [Store.status?, h.rows, status?_restarted]
    change (store.status? id).map _ = _
    rw [stored]
    cases status <;> first | rfl | cases terminal
  · left
    have hopen : row.isUnfinished = true := by
      rw [Row.isUnfinished_iff, hstatus]
      cases status <;> first | exact absurd rfl terminal | simp
    have hqueued : Queued.ofRow c row ∈ t.queue :=
      h.each_once.mem_iff.mpr (List.mem_map_of_mem (List.mem_filter.mpr ⟨hrow, hopen⟩))
    exact hid ▸ List.mem_map_of_mem (f := Queued.id) hqueued

/-- Nothing is lost over a crash. Cut off any run anywhere, whatever the store has refused in it and
whatever others have done to the store, and put a new scheduler on what is in the store, of any setup
and under any outages. If its recovery succeeds, then it answers the number of unfinished tasks, has
taken them over, and every task that was submitted is in its queue or has ended, unless it was deleted
after its submission. -/
theorem nothing_lost_over_crash (c : Setup) (disk : Disk) (keyed : disk.store.Keyed) (ms : List Move)
    (run : (State.init c disk).Follows c Move.Fresh ms) (c' : Setup)
    (outages : List (Operation × Outage)) (now : Int) (n : Nat) :
    let store := ((State.init c disk).run c ms).disk.store
    let s := anew c' store outages now
    let t := (s.recover c').2
    (s.recover c').1 = .ok n →
      n = (store.taskRows.filter Row.isUnfinished).length ∧ t.TakenOver c' store now ∧
        ∀ xs id kind payload title ys, ms = xs ++ .submit id kind payload title :: ys →
          (((State.init c disk).run c xs).submit c id kind payload title).1 = .ok id →
          .deleteRecord id ∉ ys →
          id ∈ t.ledger.queuedIds ∨
            ∃ status, t.disk.store.status? id = some status ∧ status.isTerminal = true := by
  intro store s t recovered
  obtain ⟨count, takenOver⟩ :=
    recover_takesOver (keyed_of_fresh keyed run) outages now (Prod.ext recovered rfl : _ = (_, t))
  refine ⟨count, takenOver, ?_⟩
  rintro xs id kind payload title ys rfl accepted spared
  obtain ⟨-, -, after⟩ := Follows.append.mp run
  have stored := stored_of_fresh after spared ⟨_, status?_of_submit accepted⟩
  apply takenOver.queued_or_ended
  rw [run_append]
  exact stored

/-- Two tasks are submitted and the first one is claimed; then the power fails. -/
def cutOffRun : List Move :=
  [.submit "a" "mem" [] "film", .clock 1, .submit "b" "mem" [] "song", .start, .loop .go, .loop .permit,
    .loop .go, .loop .go]

/-- Both tasks are taken over, the one that was running and the one that was pending. -/
theorem nothing_lost_over_power_failure :
    let c := Setup.small 0
    let store := ((State.init c {}).run c cutOffRun).disk.store
    let s := anew (Setup.small 2) store [] 5
    let t := (s.recover (Setup.small 2)).2
    ((State.init c {}).Follows c Move.Fresh cutOffRun ∧ (s.recover (Setup.small 2)).1 = .ok 2) ∧
      t.TakenOver (Setup.small 2) store 5 ∧ t.ledger.queuedIds.Perm ["a", "b"] := by
  have run : (State.init (Setup.small 0) {}).Follows (Setup.small 0) Move.Fresh cutOffRun := by
    decide +kernel
  obtain ⟨n, t, recovered⟩ := recover_of_healthy (c := Setup.small 2)
    (s := anew (Setup.small 2)
      ((State.init (Setup.small 0) {}).run (Setup.small 0) cutOffRun).disk.store [] 5) rfl rfl
  have recovered := congrArg Prod.fst recovered
  obtain ⟨count, takenOver, -⟩ := nothing_lost_over_crash (Setup.small 0) {} List.nodup_nil cutOffRun
    run (Setup.small 2) [] 5 n recovered
  have two : n = 2 := count.trans (by decide +kernel)
  have rows : ((((State.init (Setup.small 0) {}).run (Setup.small 0) cutOffRun).disk.store.taskRows.filter
      Row.isUnfinished).map (Queued.ofRow (Setup.small 2))).map Queued.id = ["a", "b"] := by
    decide +kernel
  exact ⟨⟨run, two ▸ recovered⟩, takenOver, rows ▸ takenOver.each_once.map Queued.id⟩

end State

end Scheduler

end Courier
