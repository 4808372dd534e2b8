/-
# Courier.Proofs.Scheduler.Corruption -- how far a corrupt row reaches

A row is corrupt if a query that reaches it fails: its status or its type is a text that no version of the
program writes, or a column holds a value of another class than is asked of it. A row of the first kind is
in no result that was selected by a status, so a listing by status and the listing of the unfinished tasks
are as if it were not there. A row of the second kind is among the others of its status, and takes a listing of
them down with it.

A recovery sees the store only through such a listing and through writes to the tasks in it
(`State.takeUp`). So it does on a store with foreign statuses what it does on the store without them
(`State.recover_onStore`); and where the listing fails it does nothing at all.
-/
import Courier.Proofs.Store.Cells
import Courier.Proofs.Scheduler.Recovery

namespace Courier

/-! ## Rows of a store -/

/-- The status is none of the program's. -/
def Row.IsForeign (r : Row) : Prop := r.status.known? = none

instance (r : Row) : Decidable r.IsForeign := inferInstanceAs (Decidable (_ = none))

theorem Row.not_isForeign_of_isUnfinished {r : Row} (h : r.isUnfinished = true) : ¬ r.IsForeign := by
  rcases (Row.isUnfinished_iff r).mp h with status | status <;> simp [Row.IsForeign, status]

namespace Store

/-- The store without the task rows whose status is foreign. -/
def readable (s : Store) : Store :=
  { s with rows? := s.rows?.map fun rows => rows.filter fun r => !decide r.IsForeign }

theorem listPending_of_rows? {s : Store} {rows : List Row} (h : s.rows? = some rows) :
    s.listPending = (oldestFirst (rows.filter Row.isUnfinished)).mapM Row.record := by
  unfold listPending Store.rows
  rw [h]
  rfl

/-- The unfinished tasks are listed as if the rows with a foreign status were not there. -/
theorem listPending_readable (s : Store) : s.readable.listPending = s.listPending := by
  cases table : s.rows? with
  | none =>
    have missing : s.readable.rows? = none := by rw [readable, table]; rfl
    simp only [listPending, Store.rows, table, missing]
  | some rows =>
    have table' : s.readable.rows? = some (rows.filter fun r => !decide r.IsForeign) := by
      rw [readable, table]
      rfl
    have same : (rows.filter fun r => !decide r.IsForeign).filter Row.isUnfinished = rows.filter Row.isUnfinished := by
      rw [List.filter_filter]
      refine List.filter_congr fun r _ => ?_
      cases unfinished : r.isUnfinished with
      | false => rfl
      | true => simp [Row.not_isForeign_of_isUnfinished unfinished]
    rw [listPending_of_rows? table, listPending_of_rows? table', same]

end Store

/-- A disk decides on an operation without looking at its store. -/
theorem Disk.consult_store (d : Disk) (store : Store) (op : Operation) :
    ({ d with store } : Disk).consult op = ((d.consult op).1, { (d.consult op).2 with store }) := by
  unfold Disk.consult
  cases h : d.outages.lookup op <;> rfl

namespace Scheduler

variable {c : Setup}

namespace State

/-! ## Recovering -/

/-- The same scheduler on another store. -/
def onStore (s : State) (store : Store) : State := { s with disk := { s.disk with store } }

/-- What one step gives on two stores that both know the tasks `ids`: the same answer, the same state but
for the store, and stores that know these tasks. -/
inductive SameBut {α : Type} (ids : List String) : α × State → α × State → Prop
  | intro (x : α) (s : State) (store : Store)
      (known : ∀ id ∈ ids, id ∈ s.disk.store.ids ∧ id ∈ store.ids) : SameBut ids (x, s) (x, s.onStore store)

theorem onStore_onStore (s : State) (store store' : Store) : (s.onStore store).onStore store' = s.onStore store' :=
  rfl

variable {ids : List String} {s : State} {store : Store}

/-- The status of a task that both stores know is written to both or refused by both. -/
theorem writeStatus_sameBut (known : ∀ id ∈ ids, id ∈ s.disk.store.ids ∧ id ∈ store.ids) {id : String}
    (h : id ∈ ids) (status : Status) (error : String) :
    SameBut ids (s.writeStatus id status error) ((s.onStore store).writeStatus id status error) := by
  obtain ⟨here, there⟩ := known id h
  obtain ⟨u, hu⟩ := Store.updateStatus_of_mem here status error s.now
  obtain ⟨t, ht⟩ := Store.updateStatus_of_mem there status error s.now
  unfold writeStatus Disk.updateStatus Disk.write onStore
  simp only [Disk.consult_store, Disk.store_consult, hu, ht]
  cases (s.disk.consult (.update status)).1 with
  | true =>
    refine .intro _ _ store ?_
    simpa using known
  | false =>
    refine .intro _ _ t ?_
    simpa [Store.ids_updateStatus hu, Store.ids_updateStatus ht] using known

theorem recoverRecord_sameBut (known : ∀ id ∈ ids, id ∈ s.disk.store.ids ∧ id ∈ store.ids) {r : Record}
    (h : r.id ∈ ids) (done : Recovery) :
    SameBut ids (s.recoverRecord c done r) ((s.onStore store).recoverRecord c done r) := by
  have cancelling : (s.onStore store).cancelling.contains r.id = s.cancelling.contains r.id := rfl
  have tracked : (((s.onStore store).running? r.id).isSome || (s.onStore store).isQueued r.id) =
      ((s.running? r.id).isSome || s.isQueued r.id) := rfl
  unfold recoverRecord
  rw [cancelling, tracked]
  split
  · have written := writeStatus_sameBut known h .cancelled ""
    generalize s.writeStatus r.id .cancelled "" = here, (s.onStore store).writeStatus r.id .cancelled "" = there
      at written
    cases written with
    | intro x s store known => cases x <;> exact .intro _ _ store known
  · split
    · exact .intro _ s store known
    · by_cases running : r.status = .running
      · simp only [running, if_true]
        have written := writeStatus_sameBut known h .pending ""
        generalize s.writeStatus r.id .pending "" = here, (s.onStore store).writeStatus r.id .pending "" = there
          at written
        cases written with
        | intro x s store known => cases x <;> exact .intro _ _ store known
      · simp only [running, if_false]
        exact .intro _ _ store known

theorem recoverRecords_sameBut (records : List Record) (h : ∀ r ∈ records, r.id ∈ ids)
    (known : ∀ id ∈ ids, id ∈ s.disk.store.ids ∧ id ∈ store.ids) (done : Recovery) :
    SameBut ids (recoverRecords c records s done) (recoverRecords c records (s.onStore store) done) := by
  induction records generalizing s store done with
  | nil => exact .intro _ s store known
  | cons r records ih =>
    have first := recoverRecord_sameBut (c := c) known (h r List.mem_cons_self) done
    unfold recoverRecords
    generalize s.recoverRecord c done r = here, (s.onStore store).recoverRecord c done r = there at first
    cases first with
    | intro x s store known =>
      cases x with
      | error e => exact .intro _ s store known
      | ok done => exact ih (fun r hr => h r (List.mem_cons_of_mem _ hr)) known done

/-- Two stores that list the same unfinished tasks are the same to a recovery. -/
theorem recover_onStore (s : State) {store : Store} (same : store.listPending = s.disk.store.listPending) :
    ∃ t, (s.onStore store).recover c = ((s.recover c).1, (s.recover c).2.onStore t) := by
  unfold recover Disk.listPending
  simp only [onStore, Disk.consult_store, Disk.store_consult, same]
  generalize hconsult : s.disk.consult .listPending = consulted
  obtain ⟨refused, disk⟩ := consulted
  have unchanged : disk.store = s.disk.store := by
    rw [← Disk.store_consult s.disk .listPending, hconsult]
  cases refused with
  | true => exact ⟨store, rfl⟩
  | false =>
    cases listed : s.disk.store.listPending with
    | error e => exact ⟨store, rfl⟩
    | ok records =>
      have known : ∀ id ∈ records.map Record.id, id ∈ disk.store.ids ∧ id ∈ store.ids := by
        intro id hid
        obtain ⟨r, hr, rfl⟩ := List.mem_map.mp hid
        rw [unchanged]
        exact ⟨Store.mem_ids_of_mem_listPending listed hr, Store.mem_ids_of_mem_listPending (same.trans listed) hr⟩
      have recovered := recoverRecords_sameBut (c := c) (s := { s with disk }) records
        (fun r hr => List.mem_map_of_mem hr) known {}
      simp only [onStore] at recovered
      simp only [Bool.false_eq_true, if_false]
      generalize recoverRecords c records { s with disk } {} = here,
        recoverRecords c records { s with disk := { disk with store } } {} = there at recovered ⊢
      cases recovered with
      | intro x s t known => cases x <;> exact ⟨t, rfl⟩

/-! ## After the listing -/

/-- What a recovery does once its listing has been answered. -/
def takeUp (c : Setup) (s : State) : Except Store.Error (List Record) → Except Refusal Nat × State
  | .error e => (.error (.store e), s)
  | .ok records =>
    match recoverRecords c records s {} with
    | (.error e, s) => (.error (.store e), s)
    | (.ok done, s) => (.ok done.recovered.length, { s with calls := s.calls ++ [done.effects] })

theorem recover_eq_takeUp (c : Setup) (s : State) :
    s.recover c = ({ s with disk := s.disk.listPending.2 } : State).takeUp c s.disk.listPending.1 := by
  unfold recover takeUp
  generalize s.disk.listPending = listed
  obtain ⟨_ | _, disk⟩ := listed <;> rfl

/-- Every listed task that memory does not know of is queued. -/
theorem takeUp_queues {s : State} (healthy : s.disk.outages = []) {records : List Record}
    (known : ∀ r ∈ records, r.id ∈ s.disk.store.ids) {r : Record} (hr : r ∈ records)
    (forgotten : r.id ∉ s.ledger.tracked) : r.id ∈ (s.takeUp c (.ok records)).2.ledger.queuedIds := by
  obtain ⟨done, t, run, -, queued⟩ := recoverRecords_of_healthy (c := c) records s {} healthy known
  have there : (s.takeUp c (.ok records)).2 = { t with calls := t.calls ++ [done.effects] } := by
    simp only [takeUp, run]
  rw [there]
  exact queued r hr forgotten

/-- How far a corrupt row reaches, on any tables. A look-up fails if and only if the row of the id is corrupt, with the
text of the status if that is what it reaches first. The listing of all tasks fails if and only if a corrupt row is
among the newest, up to the limit; the trail of a task fails if and only if a corrupt entry of this task is among the
first, up to the limit. A row with a foreign status is in no listing by status and not in that of the unfinished tasks:
these fail if and only if one of their own rows holds a value of another class. Every query has an answer, which
fails with its first row that cannot be converted and otherwise has all rows; the order of rows with equal times is
open.

A recovery whose listing fails returns the failure and changes nothing. Where the listing succeeds and the disk refuses
nothing, it queues every unfinished task that memory does not know of. On a store, whose rows hold what their columns
are declared for, all this is what the queries and the recovery of the program do, and a recovery does what it does
without the rows with a foreign status. -/
theorem corrupt_rows_contained (d : Database) :
    (∀ id row, d.row? id = some row →
      ((∃ e, d.get id = .error e) ↔ row.IsCorrupt) ∧
      ∀ text, d.get id = .error (.foreignStatus text) ↔ row.opens = true ∧ row.foreign? = some text) ∧
    (∀ rows, d.tasks? = some rows →
      (∀ limit answer, d.Lists none limit answer →
        ∃ arranged, (Query.tasks none limit).Fails TaskCells.record rows TaskCells.IsCorrupt answer arranged) ∧
      (∀ status limit answer, d.Lists (some status) limit answer →
        ∃ arranged, (Query.tasks (some status) limit).Fails TaskCells.record rows (fun row => row.fits = false)
          answer arranged) ∧
      ∀ answer, d.ListsPending answer →
        (∃ arranged, Query.unfinished.Fails TaskCells.record rows (fun row => row.fits = false) answer arranged) ∧
        ∀ (c : Setup) (s : State),
          (∀ e, answer = .error e → s.takeUp c answer = (.error (.store e), s)) ∧
          ∀ records, answer = .ok records → s.disk.outages = [] → (∀ r ∈ records, r.id ∈ s.disk.store.ids) →
            ∀ row ∈ rows, row.isUnfinished = true → ∀ id, row.id = .text id → id ∉ s.ledger.tracked →
              id ∈ (s.takeUp c answer).2.ledger.queuedIds) ∧
    (∀ row : TaskCells, row.foreign?.isSome = true →
      (∀ status limit, (Query.tasks (some status) limit).wanted row = false) ∧ Query.unfinished.wanted row = false) ∧
    (∀ events, d.events? = some events → ∀ id limit answer, d.Trails id limit answer →
      ∃ arranged, (Query.trail id limit).Fails EventCells.entry events EventCells.IsCorrupt answer arranged) ∧
    ((∀ status limit, ∃ answer, d.Lists status limit answer) ∧ (∃ answer, d.ListsPending answer) ∧
      ∀ id limit, ∃ answer, d.Trails id limit answer) ∧
    ∀ store : Store, store.Proper → store.database = d →
      ((∀ id, store.get id = d.get id) ∧ (∀ status limit, d.Lists status limit (store.list status limit)) ∧
        d.ListsPending store.listPending ∧ ∀ id limit, d.Trails id limit (store.eventsFor id limit)) ∧
      ∀ (c : Setup) (s : State),
        (s.disk.outages = [] → (s.onStore store).recover c = (s.onStore store).takeUp c store.listPending) ∧
        ∃ t, (s.onStore store).recover c =
          (((s.onStore store.readable).recover c).1, ((s.onStore store.readable).recover c).2.onStore t) := by
  refine ⟨fun id row found => ?_, fun rows table => ⟨?_, ?_, fun answer listed => ⟨?_, fun c s => ⟨?_, ?_⟩⟩⟩,
    fun row foreign => ?_, fun events table id limit answer => ?_,
    ⟨d.exists_lists, d.exists_listsPending, d.exists_trails⟩,
    fun store proper same => ⟨?_, fun c s => ⟨fun healthy => ?_, ?_⟩⟩⟩
  · rw [Database.get_of_row? found]
    exact ⟨row.isCorrupt_iff.symm, fun text => TaskCells.record_eq_foreignStatus⟩
  · exact fun limit answer => Database.lists_all_fails table
  · exact fun status limit answer => Database.lists_status_fails table
  · exact Database.listsPending_fails table listed
  · rintro e rfl
    rfl
  · rintro records rfl healthy known row hrow unfinished id hid forgotten
    obtain ⟨r, hr, rfl⟩ := Database.mem_of_listsPending table listed hrow unfinished
    obtain rfl : r.id = id := Cell.text.inj hid
    exact takeUp_queues healthy known hr forgotten
  · -- A wanted row has the name of a status.
    have known : row.foreign? ≠ none := Option.isSome_iff_ne_none.mp foreign
    refine ⟨fun status limit => ?_, ?_⟩
    · exact Bool.eq_false_iff.mpr fun wanted => known (TaskCells.foreign?_of_status (beq_iff_eq.mp wanted))
    · exact Bool.eq_false_iff.mpr fun wanted => known (TaskCells.foreign?_of_isUnfinished wanted)
  · exact Database.trails_fails table
  · subst same
    exact ⟨fun id => (Store.get_database proper id).symm, Store.lists_database proper,
      Store.listsPending_database proper, Store.trails_database proper⟩
  · rw [recover_eq_takeUp, Disk.listPending_of_healthy (d := (s.onStore store).disk) healthy]
    rfl
  · rw [← onStore_onStore s store.readable store]
    exact recover_onStore (s.onStore store.readable) store.listPending_readable.symm

/-- The newest task is corrupt and so is its trail; the older one is listed and queued. -/
theorem corrupt_rows_contained_newest :
    let archived : Row := ⟨"a", "film", "mem", [], .foreign "archived", 5, 5, none, ""⟩
    let waiting : Row := ⟨"b", "song", "mem", [], .known .pending, 3, 3, none, ""⟩
    let store : Store :=
      { rows? := some [waiting, archived]
        marks? := some [⟨1, "a", .foreign "moved", 1, none⟩, ⟨2, "b", .known .submitted, 2, none⟩] }
    store.get "a" = .error (.foreignStatus "archived") ∧
      (∃ e, store.list none 2 = .error e) ∧ (∃ e, store.eventsFor "a" 1 = .error e) ∧
      (¬ ∃ e, store.list (some .pending) 1 = .error e) ∧
      "b" ∈ (((State.init (Setup.small 0) {}).onStore store).recover (Setup.small 0)).2.ledger.queuedIds := by
  intro archived waiting store
  have proper : store.Proper := by
    let film : Record := ⟨"a", "film", "mem", [], .pending, 5, 5, none, ""⟩
    let song : Record := ⟨"b", "song", "mem", [], .pending, 3, 3, none, ""⟩
    let written := Store.after [.put song, .put film, .logEvent ⟨none, "a", .submitted, 1, none⟩,
      .logEvent ⟨none, "b", .submitted, 2, none⟩]
    have archives : written.editStatus "a" "archived" = .ok (1, { written with rows? := some [waiting, archived] }) :=
      rfl
    have moves : ({ written with rows? := some [waiting, archived] } : Store).editEventType "a" "moved" =
        .ok (1, store) := rfl
    exact ((Store.Proper.after _).editStatus archives).editEventType moves
  obtain ⟨get, tasks, foreign, events, answers, running⟩ := corrupt_rows_contained store.database
  obtain ⟨⟨sameGet, lists, pending, trails⟩, recovers⟩ := running store proper rfl
  obtain ⟨all, wanted, unfinished⟩ := tasks [waiting.cells, archived.cells] rfl
  refine ⟨(sameGet "a").trans (((get "a" archived.cells rfl).2 "archived").mpr ⟨rfl, rfl⟩), ?_, ?_, ?_, ?_⟩
  · obtain ⟨arranged, fails⟩ := all 2 _ (lists none 2)
    have cut : (Query.tasks none 2).cut arranged = arranged :=
      Query.cut_of_length_le rfl fails.arranges.perm.length_eq.le
    have there : archived.cells ∈ arranged :=
      fails.arranges.perm.mem_iff.mpr (List.mem_cons_of_mem _ (List.mem_singleton_self _))
    exact fails.fails.mpr ⟨archived.cells, cut.symm ▸ there, by decide⟩
  · obtain ⟨arranged, fails⟩ := events _ rfl "a" 1 _ (trails "a" 1)
    have cut : (Query.trail "a" 1).cut arranged = arranged :=
      Query.cut_of_length_le rfl fails.arranges.perm.length_eq.le
    exact fails.fails.mpr ⟨_, cut ▸ fails.arranges.perm.mem_iff.mpr (List.mem_singleton_self _), by decide⟩
  · obtain ⟨arranged, fails⟩ := wanted .pending 1 _ (lists (some .pending) 1)
    rw [fails.fails]
    rintro ⟨row, hrow, unfit⟩
    obtain rfl : row = waiting.cells :=
      List.mem_singleton.mp (fails.arranges.perm.mem_iff.mp (Query.mem_of_cut hrow))
    cases unfit
  · have listed : store.listPending = .ok [⟨"b", "song", "mem", [], .pending, 3, 3, none, ""⟩] := by
      rw [Store.listPending_of_rows? rfl]
      show (Store.oldestFirst [waiting]).mapM Row.record = _
      rw [Store.oldestFirst, List.mergeSort_singleton]
      rfl
    rw [(recovers (Setup.small 0) (State.init (Setup.small 0) {})).1 rfl]
    exact ((unfinished _ pending).2 (Setup.small 0) _).2 _ listed rfl (by decide) waiting.cells (by decide) rfl "b" rfl
      (by decide)

/-- A text as the payload of one task keeps the others from being listed and queued; and without a table a listing
fails, though no row is corrupt. -/
theorem text_payload_fails_listing :
    let film : TaskCells := ⟨.text "a", .text "film", .text "mem", .text "pending", .text "x", .integer 5, .integer 5,
      .null, .text ""⟩
    let song : TaskCells := ⟨.text "b", .text "song", .text "mem", .text "pending", .blob [], .integer 3, .integer 3,
      .null, .text ""⟩
    let d : Database := { tasks? := some [song, film] }
    (∃ r, d.get "b" = .ok r) ∧
      (∀ answer, d.Lists (some .pending) 2 answer → answer = .error .database) ∧
      (∀ answer, d.ListsPending answer → answer = .error .database ∧
        "b" ∉ ((State.init (Setup.small 0) {}).takeUp (Setup.small 0) answer).2.ledger.queuedIds) ∧
      ∀ answer, ({ tasks? := none } : Database).Lists none 5 answer → answer = .error .database := by
  intro film song d
  have broken : ∀ (q : Query TaskCells) answer arranged,
      q.Fails TaskCells.record [song, film] (fun row => row.fits = false) answer arranged → film ∈ q.cut arranged →
      answer = .error .database := by
    intro q answer arranged fails there
    obtain ⟨e, failed⟩ := fails.fails.mpr ⟨film, there, rfl⟩
    obtain ⟨before, row, after, split, reason, -⟩ := (fails.converts.fails e).mp failed
    have hrow : row ∈ q.cut arranged := split ▸ List.mem_append_right before List.mem_cons_self
    rcases List.mem_pair.mp (fails.arranges.wanted (Query.mem_of_cut hrow)).1 with rfl | rfl
    · cases reason
    · rw [failed, ← Except.error.inj reason]
  refine ⟨⟨_, rfl⟩, fun answer listed => ?_, fun answer listed => ?_, fun answer listed => listed⟩
  · obtain ⟨arranged, fails⟩ := Database.lists_status_fails rfl listed
    have cut : (Query.tasks (some .pending) 2).cut arranged = arranged :=
      Query.cut_of_length_le rfl fails.arranges.perm.length_eq.le
    have there : film ∈ arranged :=
      fails.arranges.perm.mem_iff.mpr (List.mem_cons_of_mem _ (List.mem_singleton_self _))
    exact broken _ _ _ fails (cut.symm ▸ there)
  · obtain ⟨arranged, fails⟩ := Database.listsPending_fails rfl listed
    have there : film ∈ arranged :=
      fails.arranges.perm.mem_iff.mpr (List.mem_cons_of_mem _ (List.mem_singleton_self _))
    obtain rfl := broken _ _ _ fails there
    exact ⟨rfl, by decide⟩

end State
end Scheduler
end Courier
