/-
# Courier.Proofs.Store.Status -- the task table as a map from ids to statuses

The scheduler decides by ids and statuses alone. `Store.ids` and `Store.status?` are that view of a
store, and each operation is one equation on it: an insertion sets the status of one id, an update
sets the status of a known id and refuses an unknown one, a deletion forgets one id. `Store.row?` has
the same equations for whole rows.

`Store.Keyed` says that no two rows have the same id. The table has the id as its primary key, so
every store on a disk is keyed, and every operation keeps it so.
-/
import Courier.Store.Disk
import Mathlib.Data.List.Nodup
import Mathlib.Data.List.Perm.Basic

namespace Courier

/-- The value of a column that holds one of the names of `α`. -/
def Column.known? {α : Type} : Column α → Option α
  | .known x => some x
  | .foreign _ => none

@[simp] theorem Column.known?_known {α : Type} (x : α) : (Column.known x).known? = some x := rfl

theorem Column.known?_eq_some {α : Type} {col : Column α} {x : α} :
    col.known? = some x ↔ col = .known x := by
  cases col <;> simp [known?]

/-! ## Rows -/

theorem Row.isUnfinished_iff (r : Row) :
    r.isUnfinished = true ↔ r.status = .known .pending ∨ r.status = .known .running := by
  simp [Row.isUnfinished]

theorem Row.record_eq_ok {r : Row} {x : Record} (h : r.record = .ok x) :
    x.id = r.id ∧ r.status = .known x.status := by
  unfold Row.record at h
  split at h
  · cases h
  · rename_i hstatus
    cases h
    exact ⟨rfl, hstatus⟩

theorem Row.eq_row_of_record {r : Row} {x : Record} (h : r.record = .ok x) : r = x.row := by
  unfold Row.record at h
  split at h
  · cases h
  · rename_i hstatus
    cases h
    cases r
    cases hstatus
    rfl

theorem Row.record_of_isUnfinished {r : Row} (h : r.isUnfinished = true) :
    ∃ x, r.record = .ok x := by
  rcases (Row.isUnfinished_iff r).mp h with hs | hs <;> simp [Row.record, hs]

namespace Store

/-! ## The view -/

/-- The rows of the task table; a missing table has none. -/
def taskRows (s : Store) : List Row := s.rows?.getD []

def ids (s : Store) : List String := s.taskRows.map Row.id

/-- No two rows have the same id. -/
def Keyed (s : Store) : Prop := s.ids.Nodup

/-- The row of an id. -/
def lookup (rows : List Row) (id : String) : Option Row := rows.find? fun r => r.id = id

def row? (s : Store) (id : String) : Option Row := lookup s.taskRows id

/-- The status in the row of an id, if there is a row and its status is one of ours. -/
def rowStatus? (rows : List Row) (id : String) : Option Status :=
  (rows.find? fun r => r.id = id).bind fun r => r.status.known?

/-- The status under which a task is stored. -/
def status? (s : Store) (id : String) : Option Status := rowStatus? s.taskRows id

theorem rows_eq_ok {s : Store} {rs : List Row} (h : s.rows = .ok rs) : s.taskRows = rs := by
  unfold rows at h
  split at h
  · rename_i heq
    cases h
    simp [taskRows, heq]
  · cases h

theorem rows?_of_mem_ids {s : Store} {id : String} (h : id ∈ s.ids) : s.rows?.isSome = true := by
  cases hrows : s.rows? with
  | some rows => rfl
  | none => simp [ids, taskRows, hrows] at h

theorem rows_of_mem_ids {s : Store} {id : String} (h : id ∈ s.ids) : s.rows = .ok s.taskRows := by
  unfold rows taskRows
  cases hs : s.rows? with
  | some rows => rfl
  | none => simp [ids, taskRows, hs] at h

theorem rowStatus?_eq (rows : List Row) (id : String) :
    rowStatus? rows id = (lookup rows id).bind fun r => r.status.known? := rfl

theorem status?_eq (s : Store) (id : String) : s.status? id = (s.row? id).bind fun r => r.status.known? := rfl

theorem status?_congr {s t : Store} {id : String} (h : t.row? id = s.row? id) : t.status? id = s.status? id := by
  rw [status?_eq, h, status?_eq]

/-- One row: its id is looked up, or another one is. -/
theorem lookup_cons (r : Row) (rows : List Row) (id : String) :
    lookup (r :: rows) id = if r.id = id then some r else lookup rows id := by
  by_cases h : r.id = id <;> simp [lookup, h]

theorem rowStatus?_cons (r : Row) (rows : List Row) (id : String) :
    rowStatus? (r :: rows) id = if r.id = id then r.status.known? else rowStatus? rows id := by
  by_cases h : r.id = id <;> simp [rowStatus?, h]

theorem lookup_of_notMem {rows : List Row} {id : String} (h : id ∉ rows.map Row.id) :
    lookup rows id = none := by
  rw [lookup, List.find?_eq_none]
  intro r hr heq
  exact h (List.mem_map.mpr ⟨r, hr, of_decide_eq_true heq⟩)

theorem rowStatus?_of_notMem {rows : List Row} {id : String} (h : id ∉ rows.map Row.id) :
    rowStatus? rows id = none := by
  rw [rowStatus?_eq, lookup_of_notMem h, Option.bind_none]

theorem id_of_row? {s : Store} {id : String} {row : Row} (h : s.row? id = some row) : row.id = id := by
  simpa using List.find?_some h

theorem status?_of_row? {s : Store} {r : Record} (h : s.row? r.id = some r.row) :
    s.status? r.id = some r.status := by
  rw [status?_eq, h]
  rfl

theorem mem_of_row? {s : Store} {id : String} {row : Row} (h : s.row? id = some row) : row ∈ s.taskRows :=
  List.mem_of_find?_eq_some h

theorem mem_ids_of_row? {s : Store} {id : String} {row : Row} (h : s.row? id = some row) : id ∈ s.ids :=
  id_of_row? h ▸ List.mem_map_of_mem (mem_of_row? h)

theorem row?_of_mem_ids {s : Store} {id : String} (h : id ∈ s.ids) : ∃ row, s.row? id = some row := by
  obtain ⟨r, hr, hid⟩ := List.mem_map.mp h
  rw [← Option.isSome_iff_exists, row?, lookup, List.find?_isSome]
  exact ⟨r, hr, decide_eq_true hid⟩

theorem status?_of_notMem {s : Store} {id : String} (h : id ∉ s.ids) : s.status? id = none :=
  rowStatus?_of_notMem h

theorem mem_ids_of_status? {s : Store} {id : String} {status : Status}
    (h : s.status? id = some status) : id ∈ s.ids := by
  by_contra hid
  rw [status?_of_notMem hid] at h
  cases h

/-- With unique ids every row is the one that its id finds. -/
theorem lookup_of_mem {rows : List Row} (hk : (rows.map Row.id).Nodup) {r : Row} (hr : r ∈ rows) :
    lookup rows r.id = some r := by
  induction rows with
  | nil => cases hr
  | cons x rows ih =>
    obtain ⟨hx, hk⟩ := List.nodup_cons.mp hk
    rw [lookup_cons]
    rcases List.mem_cons.mp hr with rfl | hr
    · simp
    · have hne : x.id ≠ r.id := fun heq => hx (heq ▸ List.mem_map_of_mem hr)
      rw [if_neg hne, ih hk hr]

theorem rowStatus?_of_mem {rows : List Row} (hk : (rows.map Row.id).Nodup) {r : Row} (hr : r ∈ rows) :
    rowStatus? rows r.id = r.status.known? := by
  rw [rowStatus?_eq, lookup_of_mem hk hr, Option.bind_some]

/-! ## Insertion -/

theorem map_id_upsert (row : Row) (rows : List Row) :
    (upsert row rows).map Row.id =
      if row.id ∈ rows.map Row.id then rows.map Row.id else rows.map Row.id ++ [row.id] := by
  induction rows with
  | nil => simp [upsert]
  | cons r rows ih =>
    unfold upsert
    by_cases h : r.id = row.id
    · simp [h]
    · have hne : row.id ≠ r.id := Ne.symm h
      simp only [h, if_false, List.map_cons, ih, List.mem_cons, hne, false_or]
      split <;> simp

theorem lookup_upsert (row : Row) (rows : List Row) (id : String) :
    lookup (upsert row rows) id = if id = row.id then some row else lookup rows id := by
  induction rows with
  | nil => simp [upsert, lookup_cons, eq_comm]
  | cons r rows ih =>
    unfold upsert
    by_cases h : r.id = row.id
    · rw [if_pos h, lookup_cons, lookup_cons, h]
      by_cases hid : row.id = id
      · simp [hid]
      · simp [hid, Ne.symm hid]
    · rw [if_neg h, lookup_cons, lookup_cons, ih]
      by_cases hid : r.id = id
      · have hne : id ≠ row.id := fun heq => h (hid.trans heq)
        simp [hid, hne]
      · simp [hid]

theorem put_eq_ok {s t : Store} {r : Record} (h : s.put r = .ok t) :
    t.taskRows = upsert r.row s.taskRows := by
  unfold put at h
  cases hrows : s.rows with
  | error e => rw [hrows] at h; cases h
  | ok rows =>
    rw [hrows] at h
    cases h
    simp [taskRows, ← rows_eq_ok hrows]

/-- Records are put into a task table. -/
theorem rows?_of_put {s t : Store} {r : Record} (h : s.put r = .ok t) :
    s.rows?.isSome = true ∧ t.rows?.isSome = true := by
  unfold put rows at h
  cases hrows : s.rows? with
  | none => rw [hrows] at h; cases h
  | some rows =>
    rw [hrows] at h
    cases h
    exact ⟨rfl, rfl⟩

theorem put_of_rows? {s : Store} (h : s.rows?.isSome = true) (r : Record) : ∃ t, s.put r = .ok t := by
  obtain ⟨rows, hrows⟩ := Option.isSome_iff_exists.mp h
  exact ⟨{ s with rows? := some (upsert r.row rows) }, by simp only [put, Store.rows, hrows]; rfl⟩

theorem row?_put {s t : Store} {r : Record} (h : s.put r = .ok t) (id : String) :
    t.row? id = if id = r.id then some r.row else s.row? id := by
  unfold row?
  rw [put_eq_ok h, lookup_upsert]
  rfl

theorem status?_put {s t : Store} {r : Record} (h : s.put r = .ok t) (id : String) :
    t.status? id = if id = r.id then some r.status else s.status? id := by
  rw [status?_eq, row?_put h]
  split <;> rfl

theorem mem_ids_put {s t : Store} {r : Record} (h : s.put r = .ok t) {id : String} :
    id ∈ t.ids ↔ id = r.id ∨ id ∈ s.ids := by
  have hids : t.ids = _ := (congrArg (List.map Row.id) (put_eq_ok h)).trans (map_id_upsert _ _)
  rw [hids]
  show id ∈ (if r.id ∈ s.ids then s.ids else s.ids ++ [r.id]) ↔ _
  split
  · rename_i hmem
    constructor
    · exact Or.inr
    · rintro (rfl | hid)
      · exact hmem
      · exact hid
  · simp [or_comm]

theorem Keyed.put {s t : Store} {r : Record} (hk : s.Keyed) (h : s.put r = .ok t) : t.Keyed := by
  have hids : t.ids = _ := (congrArg (List.map Row.id) (put_eq_ok h)).trans (map_id_upsert _ _)
  unfold Keyed
  rw [hids]
  show (if r.id ∈ s.ids then s.ids else s.ids ++ [r.id]).Nodup
  split
  · exact hk
  · rename_i hmem
    exact hk.append (List.nodup_singleton _) (List.disjoint_singleton.mpr hmem)

/-! ## Update -/

theorem updateStatus_eq_ok {s t : Store} {id : String} {status : Status} {error : String} {now : Int}
    (h : s.updateStatus id status error now = .ok t) :
    id ∈ s.ids ∧
      t.taskRows = s.taskRows.map fun r => if r.id = id then r.moved status error now else r := by
  unfold updateStatus at h
  cases hrows : s.rows with
  | error e => rw [hrows] at h; cases h
  | ok rows =>
    rw [hrows] at h
    change (if rows.any (fun r => r.id = id) then _ else _) = _ at h
    split at h
    · rename_i hany
      obtain ⟨r, hr, hid⟩ := List.any_eq_true.mp hany
      cases h
      refine ⟨?_, ?_⟩
      · rw [← of_decide_eq_true hid]
        exact List.mem_map_of_mem (rows_eq_ok hrows ▸ hr)
      · simp [taskRows, ← rows_eq_ok hrows]
    · cases h

/-- Every known id can be updated. -/
theorem updateStatus_of_mem {s : Store} {id : String} (h : id ∈ s.ids) (status : Status)
    (error : String) (now : Int) : ∃ t, s.updateStatus id status error now = .ok t := by
  have hrows := rows_of_mem_ids h
  obtain ⟨r, hr, hid⟩ := List.mem_map.mp h
  have hany : (s.taskRows.any fun r => r.id = id) = true :=
    List.any_eq_true.mpr ⟨r, hr, decide_eq_true hid⟩
  unfold updateStatus
  rw [hrows]
  show ∃ t, (if s.taskRows.any (fun r => r.id = id) then _ else _) = _
  rw [if_pos hany]
  exact ⟨_, rfl⟩

theorem ids_updateStatus {s t : Store} {id : String} {status : Status} {error : String} {now : Int}
    (h : s.updateStatus id status error now = .ok t) : t.ids = s.ids := by
  unfold ids
  rw [(updateStatus_eq_ok h).2, List.map_map]
  apply List.map_congr_left
  intro r _
  simp only [Function.comp]
  split <;> rfl

theorem Keyed.updateStatus {s t : Store} {id : String} {status : Status} {error : String} {now : Int}
    (hk : s.Keyed) (h : s.updateStatus id status error now = .ok t) : t.Keyed := by
  unfold Keyed
  rw [ids_updateStatus h]
  exact hk

theorem marks?_updateStatus {s t : Store} {id : String} {status : Status} {error : String}
    {now : Int} (h : s.updateStatus id status error now = .ok t) : t.marks? = s.marks? := by
  unfold updateStatus at h
  cases hrows : s.rows with
  | error e => rw [hrows] at h; cases h
  | ok rows =>
    rw [hrows] at h
    change (if rows.any (fun r => r.id = id) then _ else _) = _ at h
    split at h
    · cases h
      rfl
    · cases h

theorem lookup_moved (rows : List Row) (id : String) (status : Status) (error : String) (now : Int)
    (x : String) :
    lookup (rows.map fun r => if r.id = id then r.moved status error now else r) x =
      (lookup rows x).map fun r => if x = id then r.moved status error now else r := by
  induction rows with
  | nil => rfl
  | cons r rows ih =>
    have same : (if r.id = id then r.moved status error now else r).id = r.id := by
      split <;> rfl
    rw [List.map_cons, lookup_cons, lookup_cons, ih, same]
    by_cases hx : r.id = x
    · simp [hx]
    · simp [hx]

theorem row?_updateStatus {s t : Store} {id : String} {status : Status} {error : String} {now : Int}
    (h : s.updateStatus id status error now = .ok t) (x : String) :
    t.row? x = (s.row? x).map fun r => if x = id then r.moved status error now else r := by
  unfold row?
  rw [(updateStatus_eq_ok h).2, lookup_moved]

theorem status?_updateStatus {s t : Store} {id : String} {status : Status} {error : String}
    {now : Int} (h : s.updateStatus id status error now = .ok t) (x : String) :
    t.status? x = if x = id then some status else s.status? x := by
  rw [status?_eq, row?_updateStatus h]
  by_cases hx : x = id
  · subst hx
    obtain ⟨row, hrow⟩ := row?_of_mem_ids (updateStatus_eq_ok h).1
    simp [hrow, Row.moved]
  · simp [hx, status?_eq]

/-- A record is read from the row of its id. -/
theorem get_eq (s : Store) (id : String) :
    s.get id = s.rows.bind fun rows => (lookup rows id).elim (.error (.notFound id)) Row.record := by
  unfold get lookup
  cases s.rows with
  | error e => rfl
  | ok rows =>
    simp only [bind, Except.bind]
    cases rows.find? fun r => r.id = id <;> rfl

theorem get_of_row? {s : Store} {id : String} {row : Row} (h : s.row? id = some row) :
    s.get id = row.record := by
  rw [get_eq, rows_of_mem_ids (mem_ids_of_row? h), Except.bind, show lookup s.taskRows id = some row from h]
  rfl

/-- The row behind a record that is read. -/
theorem row?_of_get {s : Store} {id : String} {r : Record} (h : s.get id = .ok r) : s.row? id = some r.row := by
  rw [get_eq] at h
  cases hrows : s.rows with
  | error e => rw [hrows] at h; cases h
  | ok rows =>
    rw [hrows, Except.bind] at h
    unfold row?
    rw [rows_eq_ok hrows]
    cases hrow : lookup rows id with
    | none => rw [hrow] at h; cases h
    | some row =>
      rw [hrow] at h
      exact congrArg some (Row.eq_row_of_record h)

theorem get_congr {s t : Store} {id : String} (known : id ∈ s.ids) (h : t.row? id = s.row? id) :
    t.get id = s.get id := by
  obtain ⟨row, hrow⟩ := row?_of_mem_ids known
  rw [get_of_row? hrow, get_of_row? (h.trans hrow)]

/-- What is read after an update. -/
theorem get_updateStatus {s t : Store} {id : String} {status : Status} {error : String} {now : Int}
    (h : s.updateStatus id status error now = .ok t) :
    ∃ r, t.get id = .ok r ∧ r.status = status ∧ r.error = if status = .failed then error else "" := by
  obtain ⟨row, before⟩ := row?_of_mem_ids (updateStatus_eq_ok h).1
  have after : t.row? id = some (row.moved status error now) := by
    rw [row?_updateStatus h, before, Option.map_some, if_pos rfl]
  exact ⟨_, get_of_row? after, rfl, rfl⟩

/-! ## Titles -/

/-- The title under which a task is stored. -/
def title? (s : Store) (id : String) : Option String := (s.row? id).map Row.title

theorem title?_of_row? {s : Store} {id : String} {row : Row} (h : s.row? id = some row) :
    s.title? id = some row.title := by
  rw [title?, h, Option.map_some]

theorem title?_put {s t : Store} {r : Record} (h : s.put r = .ok t) (id : String) :
    t.title? id = if id = r.id then some r.title else s.title? id := by
  rw [title?, row?_put h]
  split <;> rfl

/-- A title is never changed. -/
theorem title?_updateStatus {s t : Store} {id : String} {status : Status} {error : String} {now : Int}
    (h : s.updateStatus id status error now = .ok t) (x : String) : t.title? x = s.title? x := by
  rw [title?, row?_updateStatus h, title?, Option.map_map]
  congr 1
  funext r
  simp only [Function.comp]
  split <;> rfl

theorem mem_ids_of_title? {s : Store} {id title : String} (h : s.title? id = some title) : id ∈ s.ids := by
  obtain ⟨row, hrow, -⟩ := Option.map_eq_some_iff.mp h
  exact mem_ids_of_row? hrow

/-! ## Deletion -/

/-- Rows only go. -/
theorem ids_delete (s : Store) (id : String) : (s.delete id).2.ids.Sublist s.ids := by
  unfold delete
  split
  · rename_i rows marks hrows hmarks
    simpa [ids, taskRows, hrows] using List.filter_sublist.map Row.id
  · exact List.Sublist.refl _

theorem Keyed.delete {s : Store} (hk : s.Keyed) (id : String) : (s.delete id).2.Keyed :=
  hk.sublist (s.ids_delete id)

theorem lookup_filter (rows : List Row) {id x : String} (hne : x ≠ id) :
    lookup (rows.filter fun r => r.id ≠ id) x = lookup rows x := by
  induction rows with
  | nil => rfl
  | cons r rows ih =>
    by_cases hr : r.id = id
    · have other : r.id ≠ x := fun hx => hne (hx.symm.trans hr)
      rw [List.filter_cons_of_neg (by simp [hr]), ih, lookup_cons, if_neg other]
    · rw [List.filter_cons_of_pos (by simp [hr]), lookup_cons, lookup_cons, ih]

/-- A deletion leaves the other tasks alone. -/
theorem row?_delete_of_ne {s : Store} {id x : String} (hne : x ≠ id) :
    (s.delete id).2.row? x = s.row? x := by
  unfold delete
  split
  · rename_i rows marks hrows hmarks
    show lookup (rows.filter fun r => r.id ≠ id) x = _
    rw [lookup_filter rows hne]
    simp [row?, taskRows, hrows]
  · rfl

theorem status?_delete_of_ne {s : Store} {id x : String} (hne : x ≠ id) :
    (s.delete id).2.status? x = s.status? x :=
  status?_congr (row?_delete_of_ne hne)

/-- A deletion takes one record only. -/
theorem mem_ids_of_delete {s : Store} {id x : String} (h : x ∈ s.ids) (gone : x ∉ (s.delete id).2.ids) :
    x = id := by
  unfold delete at gone
  split at gone
  · rename_i rows marks hrows hmarks
    by_contra hne
    obtain ⟨row, hrow, hid⟩ := List.mem_map.mp h
    apply gone
    refine List.mem_map.mpr ⟨row, ?_, hid⟩
    simpa [taskRows, hrows, hid, hne] using hrow
  · exact absurd h gone

/-- A deletion that fails takes nothing. -/
theorem delete_of_mem_ids {s : Store} {id : String} (h : id ∈ (s.delete id).2.ids) :
    (s.delete id).2 = s := by
  unfold delete at h ⊢
  split
  · rename_i rows marks hrows hmarks
    simp only [hrows, hmarks] at h
    obtain ⟨row, hrow, hid⟩ := List.mem_map.mp h
    simp [taskRows, hid] at hrow
  · rfl

/-- A deletion that is carried out leaves no record of the task. -/
theorem notMem_ids_delete {s : Store} {id : String} (done : (s.delete id).1 = .ok ()) :
    id ∉ (s.delete id).2.ids := by
  unfold delete at done ⊢
  split at done
  · simp [ids, taskRows]
  · cases done

/-! ## Unfinished tasks -/

/-- Reading rows gives their records one for one. -/
theorem forall₂_of_mapM {rows : List Row} {rs : List Record} (h : rows.mapM Row.record = .ok rs) :
    List.Forall₂ (fun row r => Row.record row = .ok r) rows rs := by
  induction rows generalizing rs with
  | nil =>
    rw [List.mapM_nil] at h
    cases h
    exact .nil
  | cons row rows ih =>
    -- The first row that cannot be read ends the reading.
    rw [List.mapM_cons] at h
    cases hrow : row.record with
    | error e => rw [hrow] at h; cases h
    | ok r =>
      rw [hrow] at h
      change (rows.mapM Row.record >>= fun rs => pure (r :: rs)) = .ok rs at h
      cases hrows : rows.mapM Row.record with
      | error e => rw [hrows] at h; cases h
      | ok rest =>
        rw [hrows] at h
        cases h
        exact .cons hrow (ih hrows)

theorem mapM_of_isUnfinished {rows : List Row} (h : ∀ r ∈ rows, r.isUnfinished = true) :
    ∃ rs, rows.mapM Row.record = .ok rs := by
  induction rows with
  | nil => exact ⟨[], rfl⟩
  | cons row rows ih =>
    obtain ⟨r, hr⟩ := Row.record_of_isUnfinished (h row List.mem_cons_self)
    obtain ⟨rs, hrs⟩ := ih fun x hx => h x (List.mem_cons_of_mem row hx)
    refine ⟨r :: rs, ?_⟩
    rw [List.mapM_cons, hr]
    show (rows.mapM Row.record >>= fun rs => pure (r :: rs)) = _
    rw [hrs]
    rfl

theorem exists_row_of_mem {rows : List Row} {rs : List Record}
    (h : List.Forall₂ (fun row r => Row.record row = .ok r) rows rs) {r : Record} (hr : r ∈ rs) :
    ∃ row ∈ rows, Row.record row = .ok r := by
  induction h with
  | nil => cases hr
  | @cons row r' rows rs hread _ ih =>
    rcases List.mem_cons.mp hr with rfl | hr
    · exact ⟨row, List.mem_cons_self, hread⟩
    · obtain ⟨x, hx, hxr⟩ := ih hr
      exact ⟨x, List.mem_cons_of_mem row hx, hxr⟩

theorem map_id_of_forall₂ {rows : List Row} {rs : List Record}
    (h : List.Forall₂ (fun row r => Row.record row = .ok r) rows rs) :
    rs.map Record.id = rows.map Row.id := by
  induction h with
  | nil => rfl
  | cons hr _ ih => rw [List.map_cons, List.map_cons, ih, (Row.record_eq_ok hr).1]

/-- The rows that a listing reads. -/
def unfinished (s : Store) : List Row := oldestFirst (s.taskRows.filter Row.isUnfinished)

theorem mem_unfinished {s : Store} {r : Row} :
    r ∈ s.unfinished ↔ r ∈ s.taskRows ∧ r.isUnfinished = true := by
  simp [unfinished, oldestFirst]

theorem listPending_eq {s : Store} {rs : List Row} (h : s.rows = .ok rs) :
    s.listPending = s.unfinished.mapM Row.record := by
  unfold listPending unfinished
  rw [h, rows_eq_ok h]
  rfl

/-- With a task table a listing does not fail. -/
theorem listPending_of_rows {s : Store} {rs : List Row} (h : s.rows = .ok rs) :
    ∃ records, s.listPending = .ok records := by
  rw [listPending_eq h]
  exact mapM_of_isUnfinished fun r hr => (mem_unfinished.mp hr).2

theorem forall₂_of_listPending {s : Store} {records : List Record}
    (h : s.listPending = .ok records) :
    List.Forall₂ (fun row r => Row.record row = .ok r) s.unfinished records := by
  cases hrows : s.rows with
  | error e =>
    unfold listPending at h
    rw [hrows] at h
    cases h
  | ok rs =>
    rw [listPending_eq hrows] at h
    exact forall₂_of_mapM h

/-- A listed record is that of its id, and its status is not an end. -/
theorem row?_of_mem_listPending {s : Store} {records : List Record}
    (h : s.listPending = .ok records) {r : Record} (hr : r ∈ records) :
    (s.Keyed → s.row? r.id = some r.row) ∧ (r.status = .pending ∨ r.status = .running) := by
  obtain ⟨row, hrow, hread⟩ := exists_row_of_mem (forall₂_of_listPending h) hr
  obtain ⟨hmem, hopen⟩ := mem_unfinished.mp hrow
  obtain rfl := Row.eq_row_of_record hread
  -- Without unique ids the row that the id finds could be another one.
  refine ⟨fun hk => lookup_of_mem hk hmem, ?_⟩
  simpa [Row.isUnfinished_iff, Record.row] using hopen

theorem status?_of_mem_listPending {s : Store} {records : List Record}
    (h : s.listPending = .ok records) {r : Record} (hr : r ∈ records) :
    (s.Keyed → s.status? r.id = some r.status) ∧ (r.status = .pending ∨ r.status = .running) :=
  (row?_of_mem_listPending h hr).imp_left fun row? hk => status?_of_row? (row? hk)

theorem mem_ids_of_mem_listPending {s : Store} {records : List Record}
    (h : s.listPending = .ok records) {r : Record} (hr : r ∈ records) : r.id ∈ s.ids := by
  obtain ⟨row, hrow, hread⟩ := exists_row_of_mem (forall₂_of_listPending h) hr
  rw [(Row.record_eq_ok hread).1]
  exact List.mem_map_of_mem (mem_unfinished.mp hrow).1

/-- Nothing is listed twice. -/
theorem nodup_listPending {s : Store} (hk : s.Keyed) {records : List Record}
    (h : s.listPending = .ok records) : (records.map Record.id).Nodup := by
  rw [map_id_of_forall₂ (forall₂_of_listPending h)]
  have hperm : s.unfinished.Perm (s.taskRows.filter Row.isUnfinished) := List.mergeSort_perm _ _
  rw [(hperm.map Row.id).nodup_iff]
  exact hk.sublist (List.filter_sublist.map Row.id)

/-- Every task that is stored as pending or running is listed. -/
theorem mem_listPending {s : Store} {records : List Record} (h : s.listPending = .ok records)
    {id : String} {status : Status} (hs : s.status? id = some status)
    (hopen : status = .pending ∨ status = .running) : ∃ r ∈ records, r.id = id := by
  obtain ⟨row, hfind, hknown⟩ := Option.bind_eq_some_iff.mp hs
  have hmem : row ∈ s.taskRows := List.mem_of_find?_eq_some hfind
  have hid : row.id = id := by simpa using List.find?_some hfind
  have hun : row.isUnfinished = true := by
    rw [Row.isUnfinished_iff, Column.known?_eq_some.mp hknown]
    simpa using hopen
  have hids : id ∈ records.map Record.id := by
    rw [map_id_of_forall₂ (forall₂_of_listPending h), ← hid]
    exact List.mem_map_of_mem (mem_unfinished.mpr ⟨hmem, hun⟩)
  obtain ⟨r, hr, hrid⟩ := List.mem_map.mp hids
  exact ⟨r, hr, hrid⟩

end Store

end Courier
