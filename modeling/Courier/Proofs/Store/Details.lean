/-
# Courier.Proofs.Store.Details -- what becomes of the details of an entry

Details are stored as a text, which is written without a limit and read with one, and a text that cannot be read
counts as absent. So the details of an entry come back if and only if they are absent or nest no deeper than the
reader goes (`Entry.readBack_eq`); everything else of an entry comes back in any case.

`details_survive_iff` says so of an entry that has been logged to any store, whatever else is in it.
-/
import Courier.Proofs.Store.Trail

namespace Courier

namespace Store

/-! ## A table with one entry more -/

theorem nextMarkId_bounds (marks : List Mark) : 0 < nextMarkId marks ∧ ∀ m ∈ marks, m.id < nextMarkId marks := by
  have greatest : ∀ (marks : List Mark) (n : Int),
      n ≤ marks.foldl (fun n m => max n m.id) n ∧ ∀ m ∈ marks, m.id ≤ marks.foldl (fun n m => max n m.id) n := by
    intro marks
    induction marks with
    | nil => exact fun n => ⟨Int.le_refl n, fun m hm => absurd hm List.not_mem_nil⟩
    | cons first marks ih =>
      intro n
      obtain ⟨start, others⟩ := ih (max n first.id)
      rw [List.foldl_cons]
      refine ⟨by omega, fun m hm => ?_⟩
      rcases List.mem_cons.mp hm with rfl | hm
      · omega
      · exact others m hm
  obtain ⟨start, each⟩ := greatest marks 0
  unfold nextMarkId
  exact ⟨by omega, fun m hm => Int.lt_add_one_of_le (each m hm)⟩

theorem logEvent_eq_ok {s t : Store} {e : Entry} (logged : s.logEvent e = .ok t) :
    ∃ marks, s.marks? = some marks ∧ t = { s with marks? := some (marks ++ [e.mark (nextMarkId marks)]) } := by
  cases found : s.marks? with
  | none =>
    rw [Store.logEvent, Store.marks, found] at logged
    cases logged
  | some marks =>
    rw [logEvent_of_marks? found] at logged
    cases logged
    exact ⟨marks, rfl, rfl⟩

theorem id_of_entry {m : Mark} {e : Entry} (h : m.entry = .ok e) : e.id = some m.id := by
  unfold Mark.entry at h
  split at h
  · cases h
  · cases h
    rfl

/-- The entries that a query returns are those of the rows that it reads. -/
theorem mem_of_mapM_entry {marks : List Mark} {es : List Entry} (read : marks.mapM Mark.entry = .ok es) {e : Entry} :
    e ∈ es ↔ ∃ m ∈ marks, m.entry = .ok e := by
  induction marks generalizing es with
  | nil =>
    cases read
    simp
  | cons m marks ih =>
    rw [List.mapM_cons] at read
    cases first : m.entry with
    | error e' =>
      rw [first] at read
      cases read
    | ok e' =>
      cases others : marks.mapM Mark.entry with
      | error e'' =>
        rw [first, others] at read
        cases read
      | ok es' =>
        rw [first, others] at read
        cases read
        simp [ih others, first, eq_comm]

/-- A query reads all rows it is to read if each of them has a type of the program. -/
theorem exists_mapM_entry {marks : List Mark} (known : ∀ m ∈ marks, ∃ type, m.type = .known type) :
    ∃ es, marks.mapM Mark.entry = .ok es := by
  induction marks with
  | nil => exact ⟨[], rfl⟩
  | cons m marks ih =>
    obtain ⟨type, hm⟩ := known m List.mem_cons_self
    obtain ⟨es, others⟩ := ih fun m hm => known m (List.mem_cons_of_mem _ hm)
    rw [List.mapM_cons, others, Mark.entry, hm]
    exact ⟨_, rfl⟩

theorem mem_of_limited {α : Type} {limit : Nat} {xs : List α} {x : α} (h : x ∈ limited limit xs) : x ∈ xs := by
  unfold limited at h
  split at h
  · exact List.mem_of_mem_take h
  · exact h

/-- The rows that a query chooses from are those of the task. -/
theorem mem_rows {marks : List Mark} {id : String} {m : Mark} :
    m ∈ inOrder (marks.filter fun m => m.taskId = id) ↔ m ∈ marks ∧ m.taskId = id := by
  rw [inOrder, List.mem_mergeSort, List.mem_filter, decide_eq_true_eq]

/-- A query that asks for enough returns the entries of all rows of the task, if their types are the program's. -/
theorem exists_eventsFor {s : Store} {marks : List Mark} (h : s.marks? = some marks) {id : String}
    (known : ∀ m ∈ marks, m.taskId = id → ∃ type, m.type = .known type) {limit : Nat}
    (enough : marks.length ≤ limit ∨ twoTo 63 ≤ limit) :
    ∃ es, s.eventsFor id limit = .ok es ∧ ∀ e, e ∈ es ↔ ∃ m ∈ marks, m.taskId = id ∧ m.entry = .ok e := by
  have all : limited limit (inOrder (marks.filter fun m => m.taskId = id)) =
      inOrder (marks.filter fun m => m.taskId = id) := by
    have short : (inOrder (marks.filter fun m => m.taskId = id)).length ≤ marks.length := by
      rw [inOrder, List.length_mergeSort]
      exact List.length_filter_le _ _
    rcases enough with enough | enough
    · have fits := Nat.le_trans short enough
      rw [limited_eq_take (Or.inr fits), List.take_of_length_le fits]
    · exact limited_of_le enough _
  obtain ⟨es, read⟩ := exists_mapM_entry fun m hm => known m (mem_rows.mp hm).1 (mem_rows.mp hm).2
  refine ⟨es, by rw [eventsFor_of_marks? h, all, read], fun e => ?_⟩
  simp only [mem_of_mapM_entry read, mem_rows, and_assoc]

/-- An entry that was logged has got an id greater than all others. What a query returns under this id has the task,
the type, the time and the details of the entry, except that details nested deeper than the reader goes are absent.
And a query that asks for enough entries returns it, unless somebody has written a type into the rows of the task
that is none of the program's. -/
theorem details_survive_iff {s t : Store} {e : Entry} (whole : ∀ j ∈ e.details, j.Whole)
    (logged : s.logEvent e = .ok t) :
    ∃ marks, s.marks? = some marks ∧ (∀ m ∈ marks, m.id < nextMarkId marks) ∧
      (∀ limit es, t.eventsFor e.taskId limit = .ok es → ∀ x ∈ es, x.id = some (nextMarkId marks) →
        x.taskId = e.taskId ∧ x.type = e.type ∧ x.timestamp = e.timestamp ∧
          (x.details = e.details ↔ ∀ j ∈ e.details, j.depth ≤ Json.maxDepth) ∧
          ((∃ j ∈ e.details, Json.maxDepth < j.depth) → x.details = none)) ∧
      ((∀ m ∈ marks, m.taskId = e.taskId → ∃ type, m.type = .known type) →
        ∀ limit, marks.length < limit ∨ twoTo 63 ≤ limit →
          ∃ es, t.eventsFor e.taskId limit = .ok es ∧ ∃ x ∈ es, x.id = some (nextMarkId marks)) := by
  obtain ⟨marks, found, rfl⟩ := logEvent_eq_ok logged
  obtain ⟨-, below⟩ := nextMarkId_bounds marks
  refine ⟨marks, found, below, fun limit es read x hx same => ?_, fun known limit enough => ?_⟩
  · rw [eventsFor_of_marks? rfl] at read
    obtain ⟨m, hm, entry⟩ := (mem_of_mapM_entry read).mp hx
    have new : m = e.mark (nextMarkId marks) := by
      rcases List.mem_append.mp (mem_rows.mp (mem_of_limited hm)).1 with old | new
      · -- No row from before has this id.
        have := below m old
        rw [id_of_entry entry, Option.some.injEq] at same
        omega
      · exact List.mem_singleton.mp new
    subst new
    rw [Entry.entry_mark, Entry.readBack_eq whole] at entry
    cases entry
    refine ⟨rfl, rfl, rfl, ?_, fun ⟨j, hj, deep⟩ => if_neg fun all => Nat.not_le.mpr deep (all j hj)⟩
    show (if _ then _ else _) = _ ↔ _
    split
    · rename_i all
      exact iff_of_true rfl all
    · rename_i deep
      refine iff_of_false (fun absent => deep ?_) deep
      rw [← absent]
      exact fun j hj => absurd hj (Option.not_mem_none j)
  · have known : ∀ m ∈ marks ++ [e.mark (nextMarkId marks)], m.taskId = e.taskId → ∃ type, m.type = .known type := by
      intro m hm task
      rcases List.mem_append.mp hm with old | new
      · exact known m old task
      · exact ⟨e.type, by rw [List.mem_singleton.mp new]; rfl⟩
    have enough : (marks ++ [e.mark (nextMarkId marks)]).length ≤ limit ∨ twoTo 63 ≤ limit := by
      rw [List.length_append, List.length_singleton]
      omega
    obtain ⟨es, answer, mem⟩ :=
      exists_eventsFor (s := { s with marks? := some (marks ++ [e.mark (nextMarkId marks)]) }) rfl known enough
    exact ⟨es, answer, e.readBack (nextMarkId marks),
      (mem _).mpr ⟨_, List.mem_append_right _ List.mem_cons_self, rfl, Entry.entry_mark _ e⟩, rfl⟩

/-- A list in a list, so many times. -/
def nestedLists : Nat → Json
  | 0 => .arr []
  | n + 1 => .arr [nestedLists n]

theorem whole_nestedLists (n : Nat) : (nestedLists n).Whole := by
  induction n with
  | zero => exact .arr fun x hx => absurd hx List.not_mem_nil
  | succ n ih => exact .arr fun x hx => List.mem_singleton.mp hx ▸ ih

theorem depth_nestedLists (n : Nat) : (nestedLists n).depth = n + 1 := by
  induction n with
  | zero => rfl
  | succ n ih => rw [nestedLists, Json.depth, Json.itemsDepth, ih, Json.itemsDepth, Nat.max_zero]

theorem details_survive_in_new_store :
    let e : Entry := ⟨none, "a", .submitted, 1, some (.obj [("at", .arr [.int (-1), .null]), ("why", .str "x")])⟩
    (∀ j ∈ e.details, j.Whole) ∧ ∃ t, empty.logEvent e = .ok t ∧
      ∃ es, t.eventsFor "a" 1 = .ok es ∧ ∃ x ∈ es, x.id = some 1 ∧ x.taskId = "a" ∧ x.type = .submitted ∧
        x.timestamp = 1 ∧ x.details = e.details := by
  intro e
  have whole : ∀ j ∈ e.details, j.Whole := by
    intro j hj
    cases hj
    refine .obj (fun m hm => ?_) (by decide)
    simp only [List.mem_cons, List.not_mem_nil, or_false] at hm
    rcases hm with rfl | rfl
    · refine .arr fun x hx => ?_
      simp only [List.mem_cons, List.not_mem_nil, or_false] at hx
      rcases hx with rfl | rfl
      · exact .int (by decide) (by decide)
      · exact .null
    · exact .str _
  have shallow : ∀ j ∈ e.details, j.depth ≤ Json.maxDepth := by
    intro j hj
    cases hj
    decide
  have logged := logEvent_of_marks? (s := empty) rfl e
  obtain ⟨marks, found, -, same, returned⟩ := details_survive_iff whole logged
  cases found
  obtain ⟨es, answer, x, hx, id⟩ := returned nofun 1 (Or.inl (by decide))
  obtain ⟨task, type, time, details, -⟩ := same 1 es answer x hx id
  exact ⟨whole, _, logged, es, answer, x, hx, id, task, type, time, details.mpr shallow⟩

/-- Details that nest one level deeper than a text may come back as if there had been none. -/
theorem deep_details_lost :
    let e : Entry := ⟨none, "a", .submitted, 1, some (nestedLists 127)⟩
    (∀ j ∈ e.details, j.Whole ∧ j.depth = 128) ∧ ∃ t, empty.logEvent e = .ok t ∧
      t.eventsFor "a" 10 = .ok [{ e with id := some 1, details := none }] := by
  intro e
  have deep : ∀ j ∈ e.details, j.Whole ∧ j.depth = 128 := by
    intro j hj
    cases hj
    exact ⟨whole_nestedLists 127, depth_nestedLists 127⟩
  refine ⟨deep, _, logEvent_of_marks? rfl e, ?_⟩
  have read : e.readBack 1 = { e with id := some 1, details := none } := by
    rw [Entry.readBack_eq fun j hj => (deep j hj).1,
      if_neg fun all => by simpa [depth_nestedLists, Json.maxDepth] using all (nestedLists 127) rfl]
  rw [eventsFor_of_marks? rfl]
  show (limited 10 (inOrder [e.mark 1])).mapM Mark.entry = _
  rw [inOrder, List.mergeSort_singleton, ← read]
  rfl

end Store

end Courier
