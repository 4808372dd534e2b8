/-
# Courier.Proofs.Store.Refinement -- the store is a map from ids to records

A map says all there is to know about the tasks of a store: a put sets the record of its id, a new status changes
it, a deletion takes it away, and everything else leaves the map as it is. The tables know more than that. They have
an order of rows, columns that may hold anything, a second table with the audit entries, and the database is closed
and opened again.

`Mirrors` ties the tables to the map, and every call keeps it (`Mirrors.run`). What the queries return can then be
read off the map (`Mirrors.get_eq`, `Mirrors.listed`), listings up to the order of equal times (`Listed.unique`).
`refines_map` puts this together for every sequence of calls on a new store.
-/
import Courier.Proofs.Store.Status
import Courier.Store.Edits
import Mathlib.Data.List.Basic
import Mathlib.Data.List.Nodup

namespace Courier.Store

/-! ## Calls -/

/-- A call that may change a store. -/
inductive Call where
  | put (r : Record)
  | updateStatus (id : String) (status : Status) (error : String) (now : Int)
  | delete (id : String)
  | logEvent (e : Entry)
  /-- The database is closed and opened again. -/
  | reopen

/-- Why a call fails. -/
inductive Call.Refusal where
  | store (e : Store.Error)
  | schema (e : Schema.Error)
deriving DecidableEq, Repr

/-- The store after a write, or the store as it was if the write is refused. -/
def written (s : Store) : Except Error Store → Except Call.Refusal Unit × Store
  | .ok t => (.ok (), t)
  | .error e => (.error (.store e), s)

def Call.run (s : Store) : Call → Except Call.Refusal Unit × Store
  | .put r => written s (s.put r)
  | .updateStatus id status error now => written s (s.updateStatus id status error now)
  | .delete id => ((s.delete id).1.mapError .store, (s.delete id).2)
  | .logEvent e => written s (s.logEvent e)
  | .reopen => (s.reopen.mapError .schema, s)

/-- What calls one after the other make of a new store. -/
def after (calls : List Call) : Store := calls.foldl (fun s call => (call.run s).2) empty

/-! ## The map -/

/-- What a call makes of a map from ids to records. -/
def Call.update (m : String → Option Record) : Call → String → Option Record
  | .put r, id => if id = r.id then some r else m id
  | .updateStatus x status error now, id =>
    if id = x then (m id).map fun r => r.moved status error now else m id
  | .delete x, id => if id = x then none else m id
  | .logEvent _, id => m id
  | .reopen, id => m id

/-- Only changes and deletions of an id without a record fail. -/
def Call.answer (m : String → Option Record) : Call → Except Call.Refusal Unit
  | .put _ => .ok ()
  | .updateStatus id _ _ _ => if (m id).isSome then .ok () else .error (.store (.notFound id))
  | .delete id => if (m id).isSome then .ok () else .error (.store (.notFound id))
  | .logEvent _ => .ok ()
  | .reopen => .ok ()

/-- The task that a call is about. -/
def Call.subject? : Call → Option String
  | .put r => some r.id
  | .updateStatus id _ _ _ => some id
  | .delete id => some id
  | .logEvent _ => none
  | .reopen => none

/-- The map that calls one after the other leave behind. -/
def remembered (calls : List Call) : String → Option Record := calls.foldl Call.update fun _ => none

theorem Call.update_of_ne {m : String → Option Record} {call : Call} {id : String} (h : call.subject? ≠ some id) :
    call.update m id = m id := by
  cases call <;> simp_all [subject?, update, eq_comm]

/-! ## Both together -/

theorem marks?_put {s t : Store} {r : Record} (h : s.put r = .ok t) : t.marks? = s.marks? := by
  unfold put at h
  cases hrows : s.rows with
  | error e => rw [hrows] at h; cases h
  | ok rows =>
    rw [hrows] at h
    cases h
    rfl

/-- The tables of a store hold what a map says: the row of an id is that of its record. -/
structure Mirrors (s : Store) (m : String → Option Record) : Prop where
  tasks : s.rows?.isSome = true
  entries : s.marks?.isSome = true
  keyed : s.Keyed
  row?_eq : ∀ id, s.row? id = (m id).map Record.row

namespace Mirrors

variable {s : Store} {m : String → Option Record}

theorem rows (h : s.Mirrors m) : s.rows = .ok s.taskRows := by
  obtain ⟨rs, hrs⟩ := Option.isSome_iff_exists.mp h.tasks
  simp only [Store.rows, taskRows, hrs, Option.getD_some]

theorem mem_ids (h : s.Mirrors m) {id : String} : id ∈ s.ids ↔ (m id).isSome = true := by
  rw [← Option.isSome_map (f := Record.row), ← h.row?_eq, Option.isSome_iff_exists]
  exact ⟨row?_of_mem_ids, fun ⟨_, found⟩ => mem_ids_of_row? found⟩

theorem new : empty.Mirrors fun _ => none :=
  ⟨rfl, rfl, List.nodup_nil, fun _ => rfl⟩

/-- A database with both tables opens again. -/
theorem reopen_eq (h : s.Mirrors m) : s.reopen = .ok () := by
  have found : s.catalogue =
      (Schema.Version.create { number := 1, tables := [Schema.taskTable, Schema.eventTable] } {}).2 := by
    simp only [catalogue, h.tasks, h.entries, if_true, List.cons_append, List.nil_append]
  rw [reopen, found]
  decide +kernel

theorem put (h : s.Mirrors m) (r : Record) :
    ∃ t, s.put r = .ok t ∧ t.Mirrors ((Call.put r).update m) := by
  obtain ⟨t, ht⟩ := put_of_rows? h.tasks r
  refine ⟨t, ht, (rows?_of_put ht).2, ?_, h.keyed.put ht, fun id => ?_⟩
  · rw [marks?_put ht]
    exact h.entries
  · rw [row?_put ht, h.row?_eq, Call.update]
    split <;> rfl

theorem updateStatus (h : s.Mirrors m) {id : String} (known : (m id).isSome = true) (status : Status)
    (error : String) (now : Int) :
    ∃ t, s.updateStatus id status error now = .ok t ∧
      t.Mirrors ((Call.updateStatus id status error now).update m) := by
  have mem := h.mem_ids.mpr known
  obtain ⟨t, ht⟩ := updateStatus_of_mem mem status error now
  refine ⟨t, ht, ?_, ?_, h.keyed.updateStatus ht, fun x => ?_⟩
  · exact rows?_of_mem_ids (ids_updateStatus ht ▸ mem)
  · rw [marks?_updateStatus ht]
    exact h.entries
  · rw [row?_updateStatus ht, h.row?_eq, Call.update, Option.map_map]
    split
    · rw [Option.map_map]
      rfl
    · rfl

theorem updateStatus_unknown (h : s.Mirrors m) {id : String} (unknown : m id = none) (status : Status)
    (error : String) (now : Int) : s.updateStatus id status error now = .error (.notFound id) := by
  have absent : ¬ (s.taskRows.any fun r => r.id = id) = true := by
    intro found
    obtain ⟨row, hrow, hid⟩ := List.any_eq_true.mp found
    have mem : id ∈ s.ids := List.mem_map.mpr ⟨row, hrow, of_decide_eq_true hid⟩
    rw [h.mem_ids, unknown] at mem
    cases mem
  unfold Store.updateStatus
  rw [h.rows]
  show (if _ then _ else _) = _
  rw [if_neg absent]
  rfl

theorem delete (h : s.Mirrors m) (id : String) :
    (s.delete id).1 = (if (m id).isSome then .ok () else .error (.notFound id)) ∧
      (s.delete id).2.Mirrors ((Call.delete id).update m) := by
  obtain ⟨rows, hrows⟩ := Option.isSome_iff_exists.mp h.tasks
  obtain ⟨marks, hmarks⟩ := Option.isSome_iff_exists.mp h.entries
  have deleted : s.delete id =
      (if rows.any fun r => r.id = id then .ok () else .error (.notFound id),
        { rows? := some (rows.filter fun r => r.id ≠ id)
          marks? := some (marks.filter fun m => m.taskId ≠ id) }) := by
    simp only [Store.delete, hrows, hmarks]
  have known : (rows.any fun r => r.id = id) = (m id).isSome := by
    rw [Bool.eq_iff_iff, ← h.mem_ids, ids, taskRows, hrows, List.any_eq_true]
    simp only [Option.getD_some, List.mem_map, decide_eq_true_eq]
  refine ⟨by rw [deleted, known], ?_, ?_, h.keyed.delete id, fun x => ?_⟩
  · rw [deleted]
    rfl
  · rw [deleted]
    rfl
  · rw [Call.update]
    split
    · -- What is left of the rows has other ids.
      subst x
      rw [deleted]
      refine lookup_of_notMem fun found => ?_
      obtain ⟨row, hrow, hid⟩ := List.mem_map.mp found
      exact absurd hid (of_decide_eq_true (List.mem_filter.mp hrow).2)
    · rw [row?_delete_of_ne ‹_›, h.row?_eq]

theorem logEvent (h : s.Mirrors m) (e : Entry) : ∃ t, s.logEvent e = .ok t ∧ t.Mirrors m := by
  obtain ⟨marks, hmarks⟩ := Option.isSome_iff_exists.mp h.entries
  unfold Store.logEvent Store.marks
  rw [hmarks]
  exact ⟨_, rfl, h.tasks, rfl, h.keyed, h.row?_eq⟩

/-- One call: it succeeds or fails as the map says, and afterwards the store holds what the map has become. -/
theorem run (h : s.Mirrors m) (call : Call) :
    (call.run s).1 = call.answer m ∧ (call.run s).2.Mirrors (call.update m) := by
  cases call with
  | put r =>
    obtain ⟨t, ht, mirrors⟩ := h.put r
    rw [Call.run, ht]
    exact ⟨rfl, mirrors⟩
  | updateStatus id status error now =>
    rw [Call.run, Call.answer]
    cases known : m id with
    | none =>
      -- Changing a record that is not there leaves the map as it is, as the refusal does with the store.
      have unchanged : (Call.updateStatus id status error now).update m = m := by
        funext x
        rw [Call.update]
        split
        · subst x
          rw [known]
          rfl
        · rfl
      rw [h.updateStatus_unknown known, unchanged]
      exact ⟨rfl, h⟩
    | some r =>
      obtain ⟨t, ht, mirrors⟩ := h.updateStatus (known ▸ rfl : (m id).isSome = true) status error now
      rw [ht]
      exact ⟨rfl, mirrors⟩
  | delete id =>
    refine ⟨?_, (h.delete id).2⟩
    rw [Call.run, Call.answer, (h.delete id).1]
    split <;> rfl
  | logEvent e =>
    obtain ⟨t, ht, mirrors⟩ := h.logEvent e
    rw [Call.run, ht]
    exact ⟨rfl, mirrors⟩
  | reopen =>
    rw [Call.run, h.reopen_eq]
    exact ⟨rfl, h⟩

/-- Every sequence of calls. -/
theorem after (calls : List Call) : (after calls).Mirrors (remembered calls) := by
  unfold Store.after remembered
  suffices every : ∀ {s : Store} {m : String → Option Record}, s.Mirrors m →
      (calls.foldl (fun s call => (call.run s).2) s).Mirrors (calls.foldl Call.update m) from every new
  induction calls with
  | nil => exact id
  | cons call calls ih => exact fun h => ih (h.run call).2

/-! ## Queries -/

theorem get_eq (h : s.Mirrors m) (id : String) :
    s.get id = match m id with
      | some r => .ok r
      | none => .error (.notFound id) := by
  rw [Store.get_eq, h.rows]
  show (s.row? id).elim _ _ = _
  rw [h.row?_eq]
  cases m id <;> rfl

end Mirrors

/-- Rows that all hold a record. -/
theorem exists_records {rows : List Row} (h : ∀ row ∈ rows, ∃ r : Record, row = r.row) :
    ∃ rs : List Record, rows = rs.map Record.row := by
  induction rows with
  | nil => exact ⟨[], rfl⟩
  | cons row rows ih =>
    obtain ⟨r, rfl⟩ := h row List.mem_cons_self
    obtain ⟨rs, rfl⟩ := ih fun x hx => h x (List.mem_cons_of_mem _ hx)
    exact ⟨r :: rs, rfl⟩

theorem mapM_record (rs : List Record) : (rs.map Record.row).mapM Row.record = .ok rs := by
  induction rs with
  | nil => rfl
  | cons r rs ih =>
    rw [List.map_cons, List.mapM_cons, ih]
    rfl

/-- The records of a map that are wanted, each of them once and in some order of creation. -/
structure Listed (m : String → Option Record) (wanted : Record → Prop) (before : Int → Int → Prop)
    (rs : List Record) : Prop where
  each : ∀ id r, r ∈ rs ∧ r.id = id ↔ m id = some r ∧ wanted r
  once : (rs.map Record.id).Nodup
  sorted : (rs.map Record.createdAt).Pairwise before

/-- Where the times of creation differ, the order leaves no choice. -/
theorem Listed.unique {m : String → Option Record} {wanted : Record → Prop} {before : Int → Int → Prop}
    {rs others : List Record} (antisymm : ∀ a b, before a b → before b a → a = b)
    (h : Listed m wanted before rs) (other : Listed m wanted before others)
    (distinct : (rs.map Record.createdAt).Nodup) : others = rs := by
  have same : ∀ r, r ∈ others ↔ r ∈ rs := fun r => by
    rw [← and_iff_left (a := r ∈ others) (rfl : r.id = r.id), other.each, ← h.each, and_iff_left rfl]
  have perm : others.Perm rs :=
    (List.perm_ext_iff_of_nodup (List.Nodup.of_map _ other.once) (List.Nodup.of_map _ h.once)).mpr same
  refine perm.eq_of_pairwise (fun a b ha hb hab hba => ?_) (List.pairwise_map.mp other.sorted)
    (List.pairwise_map.mp h.sorted)
  exact List.inj_on_of_nodup_map distinct ((same a).mp ha) hb (antisymm _ _ hab hba)

namespace Mirrors

variable {s : Store} {m : String → Option Record}

theorem id_eq (h : s.Mirrors m) {id : String} {r : Record} (found : m id = some r) : r.id = id := by
  have row : s.row? id = some r.row := by rw [h.row?_eq, found, Option.map_some]
  exact id_of_row? row

theorem mem_taskRows (h : s.Mirrors m) {row : Row} :
    row ∈ s.taskRows ↔ ∃ r, m row.id = some r ∧ row = r.row := by
  constructor
  · -- Ids are unique, so looking up the id of a row finds this row and no other.
    intro mem
    have found : s.row? row.id = some row := lookup_of_mem h.keyed mem
    rw [h.row?_eq] at found
    obtain ⟨r, known, rfl⟩ := Option.map_eq_some_iff.mp found
    exact ⟨r, known, rfl⟩
  · rintro ⟨r, known, rfl⟩
    have found : s.row? r.row.id = some r.row := by rw [h.row?_eq, known, Option.map_some]
    exact mem_of_row? found

/-- Some rows of the table in some order are the records of the map that they stand for. -/
theorem listed (h : s.Mirrors m) {wanted : Row → Bool} {before : Int → Int → Prop} {rows : List Row}
    (perm : rows.Perm (s.taskRows.filter wanted))
    (sorted : (rows.map Row.createdAt).Pairwise before) :
    ∃ rs, rows = rs.map Record.row ∧ Listed m (fun r => wanted r.row = true) before rs := by
  have mem : ∀ row, row ∈ rows ↔ row ∈ s.taskRows ∧ wanted row = true := fun row => by
    rw [perm.mem_iff, List.mem_filter]
  obtain ⟨rs, rfl⟩ := exists_records fun row hrow => by
    obtain ⟨r, -, rfl⟩ := h.mem_taskRows.mp ((mem row).mp hrow).1
    exact ⟨r, rfl⟩
  have injective : Function.Injective Record.row := fun a b hab =>
    Except.ok.inj ((Record.record_row a).symm.trans ((congrArg Row.record hab).trans (Record.record_row b)))
  refine ⟨rs, rfl, fun id r => ?_, ?_, by rwa [List.map_map] at sorted⟩
  · rw [← List.mem_map_of_injective injective, mem, h.mem_taskRows]
    constructor
    · rintro ⟨⟨⟨r', known, same⟩, hwanted⟩, rfl⟩
      obtain rfl := injective same
      exact ⟨known, hwanted⟩
    · rintro ⟨known, hwanted⟩
      obtain rfl := h.id_eq known
      exact ⟨⟨⟨r, known, rfl⟩, hwanted⟩, rfl⟩
  · have keys : rs.map Record.id = (rs.map Record.row).map Row.id := by
      rw [List.map_map]
      rfl
    rw [keys, (perm.map Row.id).nodup_iff]
    exact h.keyed.sublist (List.filter_sublist.map Row.id)

end Mirrors

/-! ## Limits and orders -/

theorem limited_map {α β : Type} (f : α → β) (limit : Nat) (xs : List α) :
    limited limit (xs.map f) = (limited limit xs).map f := by
  unfold limited
  split
  · exact List.map_take.symm
  · rfl

/-- A limit past the signed range is as good as the number it is meant to be. -/
theorem limited_eq_take {α : Type} {limit : Nat} {xs : List α} (h : limit < twoTo 63 ∨ xs.length ≤ limit) :
    limited limit xs = xs.take limit := by
  unfold limited
  split
  · rfl
  · rw [List.take_of_length_le (h.resolve_left ‹_›)]

theorem limited_of_le {α : Type} {limit : Nat} (h : twoTo 63 ≤ limit) (xs : List α) : limited limit xs = xs :=
  if_neg (Nat.not_lt.mpr h)

theorem perm_newestFirst (rows : List Row) : (newestFirst rows).Perm rows := List.mergeSort_perm _ _

theorem perm_oldestFirst (rows : List Row) : (oldestFirst rows).Perm rows := List.mergeSort_perm _ _

theorem sorted_newestFirst (rows : List Row) : ((newestFirst rows).map Row.createdAt).Pairwise (· ≥ ·) := by
  have sorted := @List.pairwise_mergeSort _ (fun a b : Row => decide (b.createdAt ≤ a.createdAt))
    (fun a b c hab hbc => by simp only [decide_eq_true_eq] at *; omega)
    (fun a b => by simp only [Bool.or_eq_true, decide_eq_true_eq]; omega) rows
  exact List.pairwise_map.mpr (sorted.imp of_decide_eq_true)

theorem sorted_oldestFirst (rows : List Row) : ((oldestFirst rows).map Row.createdAt).Pairwise (· ≤ ·) := by
  have sorted := @List.pairwise_mergeSort _ (fun a b : Row => decide (a.createdAt ≤ b.createdAt))
    (fun a b c hab hbc => by simp only [decide_eq_true_eq] at *; omega)
    (fun a b => by simp only [Bool.or_eq_true, decide_eq_true_eq]; omega) rows
  exact List.pairwise_map.mpr (sorted.imp of_decide_eq_true)

namespace Mirrors

variable {s : Store} {m : String → Option Record}

theorem list_eq (h : s.Mirrors m) (status : Option Status) :
    ∃ rs, Listed m (fun r => ∀ wanted ∈ status, r.status = wanted) (· ≥ ·) rs ∧
      ∀ limit, s.list status limit = .ok (limited limit rs) := by
  cases status with
  | none =>
    have all : (newestFirst s.taskRows).Perm (s.taskRows.filter fun _ => true) := by
      rw [List.filter_true]
      exact perm_newestFirst _
    obtain ⟨rs, read, listed⟩ := h.listed all (sorted_newestFirst s.taskRows)
    refine ⟨rs, ⟨fun id r => ?_, listed.once, listed.sorted⟩, fun limit => ?_⟩
    · simpa using listed.each id r
    · unfold Store.list
      rw [h.rows]
      show (limited limit (newestFirst s.taskRows)).mapM Row.record = _
      rw [read, limited_map, mapM_record]
  | some status =>
    obtain ⟨rs, read, listed⟩ := h.listed (perm_newestFirst _)
      (sorted_newestFirst (s.taskRows.filter fun r => r.status = .known status))
    refine ⟨rs, ⟨fun id r => ?_, listed.once, listed.sorted⟩, fun limit => ?_⟩
    · simpa [Record.row] using listed.each id r
    · unfold Store.list
      rw [h.rows]
      show (limited limit (newestFirst (s.taskRows.filter fun r => r.status = .known status))).mapM Row.record = _
      rw [read, limited_map, mapM_record]

theorem listPending_eq (h : s.Mirrors m) :
    ∃ rs, Listed m (fun r => r.status = .pending ∨ r.status = .running) (· ≤ ·) rs ∧ s.listPending = .ok rs := by
  obtain ⟨rs, read, listed⟩ := h.listed (perm_oldestFirst _)
    (sorted_oldestFirst (s.taskRows.filter Row.isUnfinished))
  refine ⟨rs, ⟨fun id r => ?_, listed.once, listed.sorted⟩, ?_⟩
  · simpa [Row.isUnfinished_iff, Record.row] using listed.each id r
  · rw [Store.listPending_eq h.rows, unfinished]
    rw [read, mapM_record]

end Mirrors

/-- After every sequence of calls on a new store it answers like a map from ids to records: a look-up returns the
record of the map or finds none, with all its fields; a call fails only if it changes or deletes a task that the map
has no record of, and it leaves every other task alone; a listing has the wanted records of the map, newest first,
up to the limit, and the unfinished ones are all there, oldest first. -/
theorem refines_map (calls : List Call) :
    (∀ id, (after calls).get id =
      match remembered calls id with
      | some r => .ok r
      | none => .error (.notFound id)) ∧
    (∀ call : Call, (call.run (after calls)).1 = call.answer (remembered calls)) ∧
    (∀ (call : Call) (id : String), call.subject? ≠ some id →
      (after (calls ++ [call])).get id = (after calls).get id) ∧
    (∀ status, ∃ rs, Listed (remembered calls) (fun r => ∀ wanted ∈ status, r.status = wanted) (· ≥ ·) rs ∧
      ∀ limit, (limit < twoTo 63 ∨ rs.length ≤ limit → (after calls).list status limit = .ok (rs.take limit)) ∧
        (twoTo 63 ≤ limit → (after calls).list status limit = .ok rs)) ∧
    ∃ rs, Listed (remembered calls) (fun r => r.status = .pending ∨ r.status = .running) (· ≤ ·) rs ∧
      (after calls).listPending = .ok rs := by
  have mirrors := Mirrors.after calls
  refine ⟨mirrors.get_eq, fun call => (mirrors.run call).1, fun call id other => ?_, fun status => ?_,
    mirrors.listPending_eq⟩
  · have next : remembered (calls ++ [call]) = call.update (remembered calls) := by
      rw [remembered, List.foldl_append]
      rfl
    rw [(Mirrors.after (calls ++ [call])).get_eq, mirrors.get_eq, next, Call.update_of_ne other]
  · obtain ⟨rs, listed, answer⟩ := mirrors.list_eq status
    refine ⟨rs, listed, fun limit => ⟨fun h => ?_, fun h => ?_⟩⟩
    · rw [answer, limited_eq_take h]
    · rw [answer, limited_of_le h]

end Courier.Store
