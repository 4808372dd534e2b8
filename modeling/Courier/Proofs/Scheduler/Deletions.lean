/-
# Courier.Proofs.Scheduler.Deletions -- runs in which records are deleted

Memory and store agree as long as nobody deletes a record. But anybody may, at any time, and then the
store says nothing of a task that memory still knows. To a scheduler a record that is gone is no more
than a write that is refused, so what it does could as well have happened over a store that has kept the
record. `Act.over` says so of one act, `State.over_step` of one move and `State.over_run` of a run: under
the same memory there is a store, the kept one, with the records that are there and those that were
deleted, and over it nothing is ever deleted. What was proved of runs without deletions then holds over
the kept store, and of the real one for every record that is still there.

The one condition is that an id is not used again after the deletion of its record (`State.Tidy`).
-/
import Courier.Proofs.Scheduler.Moves

namespace Courier

namespace Store

/-! ## Keeping records -/

/-- Every record of `s` is in `kept` as it is, and no other one of `kept` is still to come. -/
structure Keeps (coming : List String) (kept s : Store) : Prop where
  keyed : s.Keyed
  table : s.rows?.isSome = true → kept.rows?.isSome = true
  row : ∀ id ∈ s.ids, kept.row? id = s.row? id
  rest : ∀ id ∈ kept.ids, id ∉ s.ids → id ∉ coming

namespace Keeps

variable {coming : List String} {kept s t : Store}

theorem refl (coming : List String) (keyed : s.Keyed) : Keeps coming s s where
  keyed := keyed
  table := id
  row := fun _ _ => rfl
  rest := fun _ known unknown => absurd known unknown

theorem mono (h : Keeps coming kept s) {fewer : List String} (sub : fewer ⊆ coming) :
    Keeps fewer kept s :=
  { h with rest := fun id known unknown hid => h.rest id known unknown (sub hid) }

theorem status (h : Keeps coming kept s) {id : String} (known : id ∈ s.ids) :
    id ∈ kept.ids ∧ kept.status? id = s.status? id := by
  obtain ⟨row, stored⟩ := row?_of_mem_ids known
  have same := h.row id known
  exact ⟨mem_ids_of_row? (same.trans stored), status?_congr same⟩

/-- What is stored is kept. -/
theorem row?_eq_some (h : Keeps coming kept s) {id : String} {row : Row}
    (stored : s.row? id = some row) : kept.row? id = some row :=
  (h.row id (mem_ids_of_row? stored)).trans stored

theorem status?_eq_some (h : Keeps coming kept s) {id : String} {status : Status}
    (stored : s.status? id = some status) : kept.status? id = some status :=
  (h.status (mem_ids_of_status? stored)).2.trans stored

/-- A record that comes is new to both. -/
theorem notMem_ids (h : Keeps coming kept s) {id : String} (new : id ∉ s.ids) (comes : id ∈ coming) :
    id ∉ kept.ids :=
  fun known => h.rest id known new comes

theorem put (h : Keeps coming kept s) {r : Record} (put : s.put r = .ok t) :
    ∃ kept', kept.put r = .ok kept' ∧ Keeps coming kept' t := by
  obtain ⟨kept', put'⟩ := put_of_rows? (h.table (rows?_of_put put).1) r
  refine ⟨kept', put', h.keyed.put put, fun _ => (rows?_of_put put').2, ?_, ?_⟩
  · intro id known
    rw [row?_put put', row?_put put]
    by_cases hid : id = r.id
    · simp [hid]
    · rw [if_neg hid, if_neg hid]
      exact h.row id (((mem_ids_put put).mp known).resolve_left hid)
  · intro id known unknown
    rw [mem_ids_put put, not_or] at unknown
    exact h.rest id (((mem_ids_put put').mp known).resolve_left unknown.1) unknown.2

theorem updateStatus (h : Keeps coming kept s) {id : String} {status : Status} {error : String} {now : Int}
    (update : s.updateStatus id status error now = .ok t) :
    ∃ kept', kept.updateStatus id status error now = .ok kept' ∧ Keeps coming kept' t := by
  have known := (h.status (updateStatus_eq_ok update).1).1
  obtain ⟨kept', update'⟩ := updateStatus_of_mem known status error now
  have ids := ids_updateStatus update
  have ids' := ids_updateStatus update'
  refine ⟨kept', update', h.keyed.updateStatus update, fun _ => rows?_of_mem_ids (ids' ▸ known), ?_, ?_⟩
  · intro x hx
    rw [row?_updateStatus update', row?_updateStatus update, h.row x (ids ▸ hx)]
  · intro x hx hne
    exact h.rest x (ids' ▸ hx) (ids ▸ hne)

/-- A deletion changes nothing in what is kept. -/
theorem delete (h : Keeps coming kept s) {id : String} (once : id ∉ coming) :
    Keeps coming kept (s.delete id).2 where
  keyed := h.keyed.delete id
  table := by
    intro table
    apply h.table
    unfold Store.delete at table
    split at table
    · rename_i rows marks hrows hmarks
      rw [hrows]
      rfl
    · exact table
  row := by
    intro x known
    by_cases hx : x = id
    · -- The deletion has failed, or `x` would not be there.
      subst hx
      rw [delete_of_mem_ids known]
      exact h.row x (delete_of_mem_ids known ▸ known)
    · rw [row?_delete_of_ne hx]
      exact h.row x ((s.ids_delete id).subset known)
  rest := by
    intro x known unknown
    by_cases hx : x ∈ s.ids
    · rw [mem_ids_of_delete hx unknown]
      exact once
    · exact h.rest x known hx

end Keeps

end Store

namespace Scheduler

/-- Records are added under those of the new ids that are to come. -/
def Edits.coming (ids : List String) : Edits := fun l store =>
  ∃ r, l.isNew r.id ∧ r.id ∈ ids ∧ l.store.put r = .ok store

variable {c : Setup} {coming : List String} {kept : Store} {l l' : Ledger}

/-- The same memory over another store. -/
def Ledger.over (l : Ledger) (store : Store) : Ledger := { l with store }

/-! ## One act -/

open Ledger

namespace Ledger

/-- A record stays where nobody deletes one. -/
theorem mem_ids_of_coming (act : Act c (.coming coming) l l') {id : String} (known : id ∈ l.store.ids) :
    id ∈ l'.store.ids := by
  rcases act.store_cases with same | ⟨r, -, -, put⟩ | ⟨x, status, error, writes, -⟩
  · exact same.symm ▸ known
  · exact (Store.mem_ids_put put).mpr (Or.inr known)
  · exact writes.ids.symm ▸ known

/-- No record appears but those that are to come. -/
theorem notMem_ids_of_coming (act : Act c (.coming coming) l l') {id : String} (unknown : id ∉ l.store.ids)
    (apart : id ∉ coming) : id ∉ l'.store.ids := by
  rcases act.store_cases with same | ⟨r, -, comes, put⟩ | ⟨x, status, error, writes, -⟩
  · exact same.symm ▸ unknown
  · rw [Store.mem_ids_put put, not_or]
    exact ⟨fun heq => apart (heq ▸ comes), unknown⟩
  · exact writes.ids.symm ▸ unknown

/-- The only record that is new to the store is the one that has come. -/
theorem comes_of_allowed {r : Record} {store : Store} (new : l.isNew r.id) (put : l.store.put r = .ok store)
    (allowed : Edits.coming coming l store) : r.id ∈ coming := by
  -- `put` and `allowed` could be about two records, but only one id is new in `store`.
  obtain ⟨x, -, comes, put'⟩ := allowed
  have stored : r.id ∈ store.ids := (Store.mem_ids_put put).mpr (Or.inl rfl)
  rwa [((Store.mem_ids_put put').mp stored).resolve_right new.1]

theorem isNew.over {id : String} (new : l.isNew id) (comes : id ∈ coming)
    (keeps : Store.Keeps coming kept l.store) : (l.over kept).isNew id :=
  ⟨keeps.notMem_ids new.1 comes, new.2⟩

theorem Writes.over {id : String} {status : Status} {error : String} {store : Store}
    (writes : l.Writes id status error store) (keeps : Store.Keeps coming kept l.store) :
    ∃ kept', (l.over kept).Writes id status error kept' ∧ Store.Keeps coming kept' store := by
  obtain ⟨now, update⟩ := writes
  obtain ⟨kept', update', keeps'⟩ := keeps.updateStatus update
  exact ⟨kept', ⟨now, update'⟩, keeps'⟩

end Ledger

/-- What a worker does by itself does not depend on the store. -/
theorem Next.over {w : Worker} {p : Phase} {hs : List Happening} (next : Next c l w p hs) (kept : Store) :
    Next c (l.over kept) w p hs := by
  cases next with
  | fetch t phase => exact .fetch t phase
  | stop t phase told => exact .stop t phase told
  | fetched t phase => exact .fetched t phase
  | unfetched t failure phase => exact .unfetched t failure phase
  | stored t result phase => exact .stored t result phase
  | judge t result phase => exact .judge t result phase
  | rolledBack t phase => exact .rolledBack t phase
  | settle result millis phase => exact .settle result millis phase
  | interrupted phase asked => exact .interrupted phase asked
  | cancelled phase asked => exact .cancelled phase asked
  | refused e attempt phase again => exact .refused e attempt phase again
  | givenUp e attempt phase => exact .givenUp e attempt phase
  | again e attempt phase aborted => exact .again e attempt phase aborted

/-- What happens could have happened over the kept store. -/
theorem Act.over (act : Act c (.coming coming) l l') (keeps : Store.Keeps coming kept l.store) :
    ∃ kept', Store.Keeps coming kept' l'.store ∧ Act c .additions (l.over kept) (l'.over kept') := by
  -- A write that succeeds does so over the kept store too, for that has every record of the other. The
  -- acts that do not write do not look at the store, except to list a record, which then is in both.
  cases act with
  | edit store allowed =>
    obtain ⟨r, new, comes, put⟩ := allowed
    obtain ⟨kept', put', keeps'⟩ := keeps.put put
    exact ⟨kept', keeps', .edit kept' ⟨r, new.over comes keeps, put'⟩⟩
  | submit r store new pending put allowed =>
    obtain ⟨kept', put', keeps'⟩ := keeps.put put
    have new' : (l.over kept).isNew r.id := new.over (comes_of_allowed new put allowed) keeps
    exact ⟨kept', keeps', .submit r kept' new' pending put' ⟨r, new', put'⟩⟩
  | withdraw id store queued writes =>
    obtain ⟨kept', writes', keeps'⟩ := writes.over keeps
    exact ⟨kept', keeps', .withdraw id kept' queued writes'⟩
  | tell r found first => exact ⟨kept, keeps, .tell r found first⟩
  | retell r found asked => exact ⟨kept, keeps, .retell r found asked⟩
  | arrive => exact ⟨kept, keeps, .arrive⟩
  | storeCancel id store outstanding writes listed others done gathered =>
    obtain ⟨kept', writes', keeps'⟩ := writes.over keeps
    have listed' : kept.status? id = some .pending ∨ kept.status? id = some .running :=
      (listed keeps.keyed).imp keeps.status?_eq_some keeps.status?_eq_some
    exact ⟨kept', keeps', .storeCancel (l := l.over kept) id kept' outstanding writes' (fun _ => listed')
      others done gathered⟩
  | takePending r notHeld notRunning notQueued pending listed others done gathered =>
    have listed' := keeps.row?_eq_some (listed keeps.keyed)
    exact ⟨kept, keeps,
      .takePending (l := l.over kept) r notHeld notRunning notQueued pending (fun _ => listed') others
        done gathered⟩
  | takeRunning r store notHeld notRunning notQueued running listed writes others done gathered =>
    obtain ⟨kept', writes', keeps'⟩ := writes.over keeps
    have listed' := keeps.row?_eq_some (listed keeps.keyed)
    exact ⟨kept', keeps', .takeRunning (l := l.over kept) r kept' notHeld notRunning notQueued running
      (fun _ => listed') writes' others done gathered⟩
  | breakOff others es gathered => exact ⟨kept, keeps, .breakOff others es gathered⟩
  | callEffect call e es next => exact ⟨kept, keeps, .callEffect call e es next⟩
  | callReturn call done => exact ⟨kept, keeps, .callReturn call done⟩
  | claim task rest store head writes =>
    obtain ⟨kept', writes', keeps'⟩ := writes.over keeps
    exact ⟨kept', keeps', .claim task rest kept' head writes'⟩
  | stopAll => exact ⟨kept, keeps, .stopAll⟩
  | giveUpAll => exact ⟨kept, keeps, .giveUpAll⟩
  | start w now here phase => exact ⟨kept, keeps, .start w now here phase⟩
  | advance w p hs here next => exact ⟨kept, keeps, .advance w p hs here (next.over kept)⟩
  | finish w e attempt store here phase releases writes =>
    obtain ⟨kept', writes', keeps'⟩ := writes.over keeps
    exact ⟨kept', keeps', .finish w e attempt kept' here phase releases writes'⟩
  | handBack w failure remaining attempt store here phase writes =>
    obtain ⟨kept', writes', keeps'⟩ := writes.over keeps
    exact ⟨kept', keeps', .handBack w failure remaining attempt kept' here phase writes'⟩
  | lateStore w attempt store here phase writes =>
    obtain ⟨kept', writes', keeps'⟩ := writes.over keeps
    exact ⟨kept', keeps', .lateStore w attempt kept' here phase writes'⟩
  | letGo w es here phase reports => exact ⟨kept, keeps, .letGo w es here phase reports⟩
  | requeue w failure remaining here phase unasked =>
    exact ⟨kept, keeps, .requeue w failure remaining here phase unasked⟩
  | holdBack w failure remaining here phase asked =>
    exact ⟨kept, keeps, .holdBack w failure remaining here phase asked⟩
  | clear w here phase => exact ⟨kept, keeps, .clear w here phase⟩
  | workerEffect w e es here phase => exact ⟨kept, keeps, .workerEffect w e es here phase⟩
  | vanish w here ended => exact ⟨kept, keeps, .vanish w here ended⟩

theorem OneAct.over (act : OneAct c (.coming coming) l l') (keeps : Store.Keeps coming kept l.store) :
    ∃ kept', Store.Keeps coming kept' l'.store ∧ OneAct c .additions (l.over kept) (l'.over kept') := by
  cases act with
  | refl => exact ⟨kept, keeps, .refl⟩
  | single act =>
    obtain ⟨kept', keeps', act⟩ := act.over keeps
    exact ⟨kept', keeps', .single act⟩

theorem ActsAside.over (aside : ActsAside c (.coming coming) l l')
    (keeps : Store.Keeps coming kept l.store) :
    ∃ kept', Store.Keeps coming kept' l'.store ∧
      ActsAside c .additions (l.over kept) (l'.over kept') := by
  induction aside with
  | refl => exact ⟨kept, keeps, .refl⟩
  | tail _ act ih =>
    obtain ⟨kept', keeps', acts⟩ := ih
    obtain ⟨kept'', keeps'', last⟩ := act.1.over keeps'
    exact ⟨kept'', keeps'', acts.tail ⟨last, act.2⟩⟩

/-! ## One move -/

/-- The id under which a move puts a record into the store. -/
def Move.brings? : Move → Option String
  | .submit id .. => some id
  | .putRecord r => some r.id
  | _ => none

/-- The id whose record a move deletes. -/
def Move.deletes? : Move → Option String
  | .deleteRecord id => some id
  | _ => none

/-- A record that a move puts into the store comes under an id that nobody has used. -/
def Move.New (s : State) (m : Move) : Prop := ∀ id ∈ m.brings?, s.ledger.isNew id

instance (s : State) (m : Move) : Decidable (m.New s) :=
  inferInstanceAs (Decidable (∀ id ∈ m.brings?, s.ledger.isNew id))

/-- The ids under which records are put into the store. -/
def brought (ms : List Move) : List String := ms.filterMap Move.brings?

theorem mem_brought {ms : List Move} {m : Move} (hm : m ∈ ms) {id : String} (brings : m.brings? = some id) :
    id ∈ brought ms :=
  List.mem_filterMap.mpr ⟨m, hm, brings⟩

theorem brought_tail (m : Move) (ms : List Move) : brought ms ⊆ brought (m :: ms) :=
  ((List.sublist_cons_self m ms).filterMap _).subset

/-- An id names one task for good: it is new when a record comes under it, and it does not come back
after a deletion. Deletions as such are free. -/
structure State.Tidy (c : Setup) (s : State) (ms : List Move) : Prop where
  new : s.Follows c Move.New ms
  once : ms.Pairwise fun m n => ∀ id ∈ m.deletes?, n.brings? ≠ some id

instance (s : State) (ms : List Move) : Decidable (s.Tidy c ms) :=
  decidable_of_iff (s.Follows c Move.New ms ∧
    ms.Pairwise fun m n => ∀ id ∈ m.deletes?, n.brings? ≠ some id)
    ⟨fun h => ⟨h.1, h.2⟩, fun h => ⟨h.1, h.2⟩⟩

namespace State

theorem Tidy.tail {s : State} {m : Move} {ms : List Move} (run : s.Tidy c (m :: ms)) :
    (s.step c m).Tidy c ms :=
  ⟨run.new.2, run.once.tail⟩

theorem act_of_new {s : State} {m : Move} (new : m.New s) (comes : ∀ id ∈ m.brings?, id ∈ coming) :
    m = .recover ∨ (∃ id, m = .deleteRecord id) ∨
      OneAct c (.coming coming) s.ledger (s.step c m).ledger := by
  by_cases deletes : ∃ id, m = .deleteRecord id
  · exact Or.inr (Or.inl deletes)
  · refine (s.step_act m ?_ ?_ ?_).imp_right Or.inr
    · rintro id kind payload title rfl
      exact ⟨new id rfl, fun store put => ⟨.new id kind payload title s.now, new id rfl, comes id rfl, put⟩⟩
    · rintro r store rfl put
      exact ⟨r, new r.id rfl, comes r.id rfl, put⟩
    · exact fun id h => absurd ⟨id, h⟩ deletes

/-- The first move of a tidy run is a recovery, a deletion, or one act or nothing. -/
theorem Tidy.head {s : State} {m : Move} {ms : List Move} (run : s.Tidy c (m :: ms)) :
    m = .recover ∨ (∃ id, m = .deleteRecord id ∧ id ∉ brought ms) ∨
      OneAct c (.coming (brought (m :: ms))) s.ledger (s.step c m).ledger := by
  have comes : ∀ id ∈ m.brings?, id ∈ brought (m :: ms) := fun _ => mem_brought List.mem_cons_self
  rcases act_of_new run.new.1 comes with rfl | ⟨id, rfl⟩ | act
  · exact Or.inl rfl
  · refine Or.inr (Or.inl ⟨id, rfl, ?_⟩)
    intro back
    obtain ⟨n, hn, brings⟩ := List.mem_filterMap.mp back
    exact List.rel_of_pairwise_cons run.once hn id rfl brings
  · exact Or.inr (Or.inr act)

/-- A move over a store that keeps what it deletes. -/
theorem over_step {s : State} {m : Move} {ms : List Move} (run : s.Tidy c (m :: ms))
    (keeps : Store.Keeps (brought (m :: ms)) kept s.disk.store) :
    ∃ kept', Store.Keeps (brought ms) kept' (s.step c m).disk.store ∧
      Acts c .additions (s.ledger.over kept) ((s.step c m).ledger.over kept') := by
  have rest := brought_tail m ms
  rcases run.head with rfl | ⟨id, rfl, once⟩ | act
  · obtain ⟨kept', keeps', aside⟩ := s.recover_acts.over keeps
    exact ⟨kept', keeps'.mono rest, aside.acts⟩
  · exact ⟨kept, (keeps.mono rest).delete once, .refl⟩
  · obtain ⟨kept', keeps', act⟩ := OneAct.over act keeps
    exact ⟨kept', keeps'.mono rest, act.to_reflTransGen⟩

/-- A run in which records are deleted could as well have been one, over the kept store, in which none
is. -/
theorem over_run {s : State} {ms : List Move} (run : s.Tidy c ms)
    (keeps : Store.Keeps (brought ms) kept s.disk.store) :
    ∃ kept', Store.Keeps [] kept' (s.run c ms).disk.store ∧
      Acts c .additions (s.ledger.over kept) ((s.run c ms).ledger.over kept') := by
  -- What is kept changes with every move, so each move comes with a store of its own.
  induction ms generalizing s kept with
  | nil => exact ⟨kept, keeps, .refl⟩
  | cons m ms ih =>
    obtain ⟨kept', keeps', first⟩ := over_step run keeps
    obtain ⟨kept'', keeps'', rest⟩ := ih run.tail keeps'
    exact ⟨kept'', keeps'', first.trans rest⟩

/-- No record appears unless a move brings it. -/
theorem notMem_ids_step {s : State} {m : Move} (new : m.New s) {id : String}
    (unknown : id ∉ s.disk.store.ids) (apart : m.brings? ≠ some id) :
    id ∉ (s.step c m).disk.store.ids := by
  have notToCome : id ∉ m.brings?.toList := by simpa using apart
  have keep (l l' : Ledger) (unknown : id ∉ l.store.ids) (act : Act c (.coming m.brings?.toList) l l') :
      id ∉ l'.store.ids := notMem_ids_of_coming act unknown notToCome
  rcases act_of_new (c := c) new (fun id => Option.mem_toList.mpr) with rfl | ⟨x, rfl⟩ | act
  · exact s.recover_acts.acts.preserves (P := fun l => id ∉ l.store.ids) keep unknown
  · exact fun known => unknown ((s.disk.store.ids_delete x).subset known)
  · exact Acts.preserves (P := fun l => id ∉ l.store.ids) keep act.to_reflTransGen unknown

end State

end Scheduler

end Courier
