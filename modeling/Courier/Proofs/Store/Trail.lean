/-
# Courier.Proofs.Store.Trail -- the audit trail of a task

The audit table is filled from the end and thinned out by deletions, and the order of entries with equal times rests
on ids that the database gives: one more than the greatest one in use, so that an id that a deletion has freed at the
end is given out again.

The ids grow all the same from one entry that is left to the next (`Numbered`, kept by every call), and so sorting by
time and id is the stable sort by time. `trails_complete` puts this together for every sequence of calls on a new
store.
-/
import Courier.Proofs.Json.RoundTrip
import Courier.Proofs.Store.Refinement
import Mathlib.Data.List.DropRight

namespace Courier

/-! ## Rows of entries -/

/-- The row of an entry, under the id that the store has given it. -/
def Entry.mark (id : Int) (e : Entry) : Mark where
  id := id
  taskId := e.taskId
  type := .known e.type
  timestamp := e.timestamp
  details := e.details.map Json.text

/-- An entry as it comes back from the store, with its id and with what the text of its details reads as. -/
def Entry.readBack (id : Int) (e : Entry) : Entry :=
  { e with
    id := some id
    details := e.details.bind fun j => (Json.parse (Utf8.encode j.text)).toOption }

theorem Entry.entry_mark (id : Int) (e : Entry) : (e.mark id).entry = .ok (e.readBack id) := by
  cases e with
  | mk _ _ _ _ details => cases details <;> rfl

/-- An entry comes back as it was, but without its details if they nest too deep. -/
theorem Entry.readBack_eq {e : Entry} (whole : ∀ j ∈ e.details, j.Whole) (id : Int) :
    e.readBack id =
      { e with
        id := some id
        details := if ∀ j ∈ e.details, j.depth ≤ Json.maxDepth then e.details else none } := by
  have read : (e.details.bind fun j => (Json.parse (Utf8.encode j.text)).toOption) =
      if ∀ j ∈ e.details, j.depth ≤ Json.maxDepth then e.details else none := by
    cases details : e.details with
    | none => simp
    | some j =>
      simp only [Option.bind_some, Json.parse_text (whole j details), Option.mem_some, forall_eq']
      split <;> rfl
  rw [readBack, read]

namespace Store

/-! ## What is left of the calls -/

/-- Does a call delete this task? -/
def Call.deletes (task : String) : Call → Bool
  | .delete id => id = task
  | _ => false

/-- The entry that a call logs for this task. -/
def Call.logs? (task : String) : Call → Option Entry
  | .logEvent e => if e.taskId = task then some e else none
  | _ => none

/-- The entries that were logged and not deleted later, in the order of their logging. -/
def survivors : List Call → List Entry
  | [] => []
  | .logEvent e :: rest => if rest.any (Call.deletes e.taskId) then survivors rest else e :: survivors rest
  | _ :: rest => survivors rest

/-- The entries that were logged for a task since it was last deleted, in the order of their logging. -/
def trail (task : String) (calls : List Call) : List Entry :=
  (calls.rtakeWhile fun call => !call.deletes task).filterMap (Call.logs? task)

/-- What a call makes of the entries that are left. -/
def Call.survive (es : List Entry) : Call → List Entry
  | .logEvent e => es ++ [e]
  | .delete id => es.filter fun e => e.taskId ≠ id
  | _ => es

theorem survivors_append (calls : List Call) (call : Call) :
    survivors (calls ++ [call]) = call.survive (survivors calls) := by
  induction calls with
  | nil => cases call <;> rfl
  | cons first calls ih =>
    cases first with
    | logEvent e =>
      rw [List.cons_append, survivors, survivors, List.any_append, ih]
      cases later : calls.any (Call.deletes e.taskId) with
      | true => rfl
      | false =>
        -- The entry was left so far; only a deletion of its own task takes it away now.
        cases call with
        | delete id =>
          by_cases same : id = e.taskId
          · simp [Call.deletes, Call.survive, same]
          · have other : e.taskId ≠ id := Ne.symm same
            simp [Call.deletes, Call.survive, same, other]
        | _ => rfl
    | _ => exact ih

theorem trail_append (task : String) (calls : List Call) (call : Call) :
    trail task (calls ++ [call]) =
      if call.deletes task then [] else trail task calls ++ (call.logs? task).toList := by
  rw [trail, List.rtakeWhile_concat]
  cases call.deletes task with
  | true => rfl
  | false =>
    simp only [Bool.not_false, if_true, Bool.false_eq_true, if_false, List.filterMap_append, trail]
    cases logged : call.logs? task <;> simp [logged]

/-- The entries of a task that are left are those that were logged since its last deletion. -/
theorem filter_survivors (task : String) (calls : List Call) :
    (survivors calls).filter (fun e => e.taskId = task) = trail task calls := by
  induction calls using List.reverseRecOn with
  | nil => rfl
  | append_singleton calls call ih =>
    rw [survivors_append, trail_append, ← ih]
    cases call with
    | logEvent e =>
      by_cases same : e.taskId = task <;> simp [Call.survive, Call.deletes, Call.logs?, same]
    | delete id =>
      by_cases same : id = task
      · subst same
        simp [Call.survive, Call.deletes, List.filter_filter]
      · have kept : ∀ e : Entry, (decide (e.taskId = task) && decide (e.taskId ≠ id)) = decide (e.taskId = task) := by
          intro e
          by_cases h : e.taskId = task
          · simp [h, Ne.symm same]
          · simp [h]
        simp only [Call.survive, Call.deletes, Call.logs?, same, List.filter_filter, kept, decide_false,
          Bool.false_eq_true, if_false, Option.toList_none, List.append_nil]
    | _ => simp [Call.survive, Call.deletes, Call.logs?]

/-! ## Ids -/

/-- The id of the last row; none is below one. -/
def lastId (numbered : List (Int × Entry)) : Int := (numbered.getLast?.map Prod.fst).getD 0

/-- Entries with ids that grow from one to the next. -/
structure Increasing (numbered : List (Int × Entry)) : Prop where
  increasing : (numbered.map Prod.fst).Pairwise (· < ·)
  positive : ∀ p ∈ numbered, 0 < p.1

theorem Increasing.sublist {numbered others : List (Int × Entry)} (h : Increasing numbered)
    (some_ : others.Sublist numbered) : Increasing others :=
  ⟨h.increasing.sublist (some_.map _), fun p hp => h.positive p (some_.subset hp)⟩

theorem Increasing.lt_last {before : List (Int × Entry)} {last : Int × Entry} (h : Increasing (before ++ [last])) :
    ∀ p ∈ before, p.1 < last.1 := by
  intro p hp
  have increasing := h.increasing
  rw [List.map_append, List.pairwise_append] at increasing
  exact increasing.2.2 p.1 (List.mem_map_of_mem hp) last.1 List.mem_cons_self

theorem lastId_concat (before : List (Int × Entry)) (last : Int × Entry) : lastId (before ++ [last]) = last.1 := by
  rw [lastId, List.getLast?_concat]
  rfl

theorem Increasing.le_lastId {numbered : List (Int × Entry)} (h : Increasing numbered) :
    0 ≤ lastId numbered ∧ ∀ p ∈ numbered, p.1 ≤ lastId numbered := by
  rcases List.eq_nil_or_concat' numbered with rfl | ⟨before, last, rfl⟩
  · exact ⟨Int.le_refl 0, fun p hp => absurd hp List.not_mem_nil⟩
  · rw [lastId_concat]
    refine ⟨Int.le_of_lt (h.positive last (List.mem_append_right _ List.mem_cons_self)), fun p hp => ?_⟩
    rcases List.mem_append.mp hp with hp | hp
    · exact Int.le_of_lt (h.lt_last p hp)
    · exact Int.le_of_eq (congrArg Prod.fst (List.mem_singleton.mp hp))

theorem Increasing.concat {numbered : List (Int × Entry)} (h : Increasing numbered) (e : Entry) :
    Increasing (numbered ++ [(lastId numbered + 1, e)]) := by
  obtain ⟨positive, le⟩ := h.le_lastId
  constructor
  · rw [List.map_append, List.pairwise_append]
    refine ⟨h.increasing, List.pairwise_singleton _ _, fun id hid next hnext => ?_⟩
    obtain ⟨p, hp, rfl⟩ := List.mem_map.mp hid
    rw [List.mem_singleton.mp hnext]
    have := le p hp
    show p.1 < lastId numbered + 1
    omega
  · intro p hp
    rcases List.mem_append.mp hp with hp | hp
    · exact h.positive p hp
    · rw [List.mem_singleton.mp hp]
      show 0 < lastId numbered + 1
      omega

/-- The next id is the one behind the last row, since no other row has a greater one. -/
theorem Increasing.nextMarkId {numbered : List (Int × Entry)} (h : Increasing numbered) :
    nextMarkId (numbered.map fun p => p.2.mark p.1) = lastId numbered + 1 := by
  -- The greatest id is looked for in the whole table, but the rows are in order of their ids.
  suffices greatest : (numbered.map fun p => p.2.mark p.1).foldl (fun n m => max n m.id) 0 = lastId numbered by
    rw [Store.nextMarkId, greatest]
  induction numbered using List.reverseRecOn with
  | nil => rfl
  | append_singleton before last ih =>
    have above : lastId before ≤ last.1 := by
      rcases List.eq_nil_or_concat' before with rfl | ⟨more, previous, rfl⟩
      · exact Int.le_of_lt (h.positive last List.mem_cons_self)
      · rw [lastId_concat]
        exact Int.le_of_lt (h.lt_last previous (List.mem_append_right _ List.mem_cons_self))
    rw [List.map_append, List.foldl_append, ih (h.sublist (List.sublist_append_left _ _)), lastId_concat]
    exact Int.max_eq_right above

/-- What a call makes of the entries that are left, with their ids. -/
def Call.renumber (numbered : List (Int × Entry)) : Call → List (Int × Entry)
  | .logEvent e => numbered ++ [(lastId numbered + 1, e)]
  | .delete id => numbered.filter fun p => p.2.taskId ≠ id
  | _ => numbered

theorem Call.map_renumber (numbered : List (Int × Entry)) (call : Call) :
    (call.renumber numbered).map Prod.snd = call.survive (numbered.map Prod.snd) := by
  cases call with
  | delete id => exact (List.filter_map (f := Prod.snd) (p := fun e : Entry => e.taskId ≠ id)).symm
  | logEvent e => exact List.map_append
  | _ => rfl

/-- An entry goes behind the rows that are there, under the next id. -/
theorem logEvent_of_marks? {s : Store} {marks : List Mark} (h : s.marks? = some marks) (e : Entry) :
    s.logEvent e = .ok { s with marks? := some (marks ++ [e.mark (nextMarkId marks)]) } := by
  rw [Store.logEvent, Store.marks, h]
  rfl

/-- The audit table holds entries, under ids that grow from one to the next. -/
structure Numbered (s : Store) (numbered : List (Int × Entry)) : Prop where
  marks?_eq : s.marks? = some (numbered.map fun p => p.2.mark p.1)
  ids : Increasing numbered

theorem Numbered.run {s : Store} {m : String → Option Record} {numbered : List (Int × Entry)} (h : s.Numbered numbered)
    (mirrors : s.Mirrors m) (call : Call) : (call.run s).2.Numbered (call.renumber numbered) := by
  cases call with
  | put r =>
    obtain ⟨t, ht, -⟩ := mirrors.put r
    rw [Call.run, ht]
    exact ⟨(marks?_put ht).trans h.marks?_eq, h.ids⟩
  | updateStatus id status error now =>
    rw [Call.run]
    cases ht : s.updateStatus id status error now with
    | error e => exact h
    | ok t => exact ⟨(marks?_updateStatus ht).trans h.marks?_eq, h.ids⟩
  | delete id =>
    obtain ⟨rows, hrows⟩ := Option.isSome_iff_exists.mp mirrors.tasks
    refine ⟨?_, h.ids.sublist List.filter_sublist⟩
    simp only [Call.run, Store.delete, hrows, h.marks?_eq, List.filter_map]
    rfl
  | logEvent e =>
    rw [Call.run, logEvent_of_marks? h.marks?_eq, h.ids.nextMarkId]
    refine ⟨?_, h.ids.concat e⟩
    rw [Call.renumber, List.map_append]
    rfl
  | reopen => exact h

theorem after_append (calls : List Call) (call : Call) : after (calls ++ [call]) = (call.run (after calls)).2 :=
  List.foldl_append

theorem exists_numbered (calls : List Call) :
    ∃ numbered, (after calls).Numbered numbered ∧ numbered.map Prod.snd = survivors calls := by
  induction calls using List.reverseRecOn with
  | nil => exact ⟨[], ⟨rfl, .nil, fun p hp => absurd hp List.not_mem_nil⟩, rfl⟩
  | append_singleton calls call ih =>
    obtain ⟨numbered, holds, entries⟩ := ih
    refine ⟨call.renumber numbered, ?_, ?_⟩
    · rw [after_append]
      exact holds.run (.after calls) call
    · rw [Call.map_renumber, entries, survivors_append]

/-! ## Order -/

/-- Entries by time; those of equal times stay in their order. -/
def byTime (es : List Entry) : List Entry := es.mergeSort fun a b => a.timestamp ≤ b.timestamp

/-- Where ids grow along the table, they compare as the places do. -/
theorem id_le_iff {marks : List Mark} (h : (marks.map Mark.id).Pairwise (· < ·)) {a b : Mark × Nat}
    (ha : a ∈ marks.zipIdx) (hb : b ∈ marks.zipIdx) : a.1.id ≤ b.1.id ↔ a.2 ≤ b.2 := by
  rw [List.pairwise_map, List.pairwise_iff_getElem] at h
  obtain ⟨insideA, placeA⟩ := List.mem_zipIdx' ha
  obtain ⟨insideB, placeB⟩ := List.mem_zipIdx' hb
  rw [placeA, placeB]
  rcases Nat.lt_trichotomy a.2 b.2 with lt | eq | gt
  · exact iff_of_true (Int.le_of_lt (h _ _ insideA insideB lt)) (Nat.le_of_lt lt)
  · simp only [eq, Int.le_refl, Nat.le_refl]
  · exact iff_of_false (Int.not_le.mpr (h _ _ insideB insideA gt)) (Nat.not_le.mpr gt)

/-- A sort is stable, so two orders sort a list alike if they agree once ties are broken by the places. -/
theorem mergeSort_congr {α : Type} {le le' : α → α → Bool} {xs : List α}
    (h : ∀ a ∈ xs.zipIdx, ∀ b ∈ xs.zipIdx, List.zipIdxLE le a b = List.zipIdxLE le' a b) :
    xs.mergeSort le = xs.mergeSort le' := by
  have same : (xs.zipIdx.mergeSort (List.zipIdxLE le)).map id = (xs.zipIdx.map id).mergeSort (List.zipIdxLE le') :=
    List.map_mergeSort h
  rw [List.map_id, List.map_id] at same
  rw [← List.mergeSort_zipIdx, same, List.mergeSort_zipIdx]

/-- So sorting by time and id is the stable sort by time. -/
theorem inOrder_eq {marks : List Mark} (h : (marks.map Mark.id).Pairwise (· < ·)) :
    inOrder marks = marks.mergeSort fun a b => a.timestamp ≤ b.timestamp := by
  refine mergeSort_congr fun a ha b hb => ?_
  have there := id_le_iff h ha hb
  have back := id_le_iff h hb ha
  simp only [List.zipIdxLE]
  grind

theorem mapM_entry (numbered : List (Int × Entry)) :
    (numbered.map fun p => p.2.mark p.1).mapM Mark.entry = .ok (numbered.map fun p => p.2.readBack p.1) := by
  induction numbered with
  | nil => rfl
  | cons p numbered ih =>
    rw [List.map_cons, List.mapM_cons, ih, Entry.entry_mark]
    rfl

theorem eventsFor_of_marks? {s : Store} {marks : List Mark} (h : s.marks? = some marks) (id : String) (limit : Nat) :
    s.eventsFor id limit = (limited limit (inOrder (marks.filter fun m => m.taskId = id))).mapM Mark.entry := by
  rw [eventsFor, Store.marks, h]
  rfl

/-- The entries of a task with their ids. -/
def ofTask (task : String) (numbered : List (Int × Entry)) : List (Int × Entry) :=
  numbered.filter fun p => p.2.taskId = task

theorem map_ofTask {numbered : List (Int × Entry)} {calls : List Call}
    (entries : numbered.map Prod.snd = survivors calls) (task : String) : (ofTask task numbered).map Prod.snd = trail task calls := by
  rw [← filter_survivors, ← entries, List.filter_map]
  rfl

theorem Numbered.eventsFor {s : Store} {numbered : List (Int × Entry)} (h : s.Numbered numbered) (task : String)
    (limit : Nat) :
    s.eventsFor task limit = .ok (limited limit (byTime ((ofTask task numbered).map fun p => p.2.readBack p.1))) := by
  have rows : (numbered.map fun p => p.2.mark p.1).filter (fun m => m.taskId = task) =
      (ofTask task numbered).map fun p => p.2.mark p.1 := List.filter_map
  have growing := (h.ids.sublist (List.filter_sublist (p := fun p => decide (p.2.taskId = task)))).increasing
  have sorted : inOrder ((ofTask task numbered).map fun p => p.2.mark p.1) =
      ((ofTask task numbered).mergeSort fun p q => p.2.timestamp ≤ q.2.timestamp).map fun p => p.2.mark p.1 := by
    rw [inOrder_eq (by rwa [List.map_map])]
    exact (List.map_mergeSort (by intros; rfl)).symm
  have read : byTime ((ofTask task numbered).map fun p => p.2.readBack p.1) =
      ((ofTask task numbered).mergeSort fun p q => p.2.timestamp ≤ q.2.timestamp).map fun p => p.2.readBack p.1 :=
    (List.map_mergeSort (by intros; rfl)).symm
  rw [eventsFor_of_marks? h.marks?_eq, rows, sorted, limited_map, mapM_entry, read, limited_map]

/-- After every sequence of calls on a new store, the audit table holds the entries that were logged and not deleted
later, in the order of their logging and under ids that grow from one to the next. The entries of a task are those
that were logged since it was last deleted; a query returns them stably sorted by time, as many as it asks for, and
each as it was logged if its details can be read back. The next entry gets the id behind the last one that is left,
whether or not it was in use before, and deleting a task takes away the entries of no other one. -/
theorem trails_complete (calls : List Call) :
    ∃ numbered : List (Int × Entry),
      (after calls).marks? = some (numbered.map fun p => p.2.mark p.1) ∧
      numbered.map Prod.snd = survivors calls ∧
      (numbered.map Prod.fst).Pairwise (· < ·) ∧ (∀ p ∈ numbered, 0 < p.1) ∧
      (∀ task, (ofTask task numbered).map Prod.snd = trail task calls ∧
        ∀ limit,
          (limit < twoTo 63 ∨ (trail task calls).length ≤ limit →
            (after calls).eventsFor task limit =
              .ok ((byTime ((ofTask task numbered).map fun p => p.2.readBack p.1)).take limit)) ∧
          (twoTo 63 ≤ limit →
            (after calls).eventsFor task limit =
              .ok (byTime ((ofTask task numbered).map fun p => p.2.readBack p.1)))) ∧
      (∀ p ∈ numbered, (∀ j ∈ p.2.details, j.Whole ∧ j.depth ≤ Json.maxDepth) →
        p.2.readBack p.1 = { p.2 with id := some p.1 }) ∧
      (∀ e, (after (calls ++ [.logEvent e])).marks? =
        some ((numbered ++ [(lastId numbered + 1, e)]).map fun p => p.2.mark p.1)) ∧
      ∀ task, (after (calls ++ [.delete task])).marks? =
        some ((numbered.filter fun p => p.2.taskId ≠ task).map fun p => p.2.mark p.1) := by
  obtain ⟨numbered, holds, entries⟩ := exists_numbered calls
  have next : ∀ call : Call, (after (calls ++ [call])).marks? =
      some ((call.renumber numbered).map fun p => p.2.mark p.1) := fun call => by
    rw [after_append]
    exact (holds.run (.after calls) call).marks?_eq
  refine ⟨numbered, holds.marks?_eq, entries, holds.ids.increasing, holds.ids.positive,
    fun task => ⟨map_ofTask entries task, fun limit => ⟨fun h => ?_, fun h => ?_⟩⟩, fun p _ read => ?_,
    fun e => next (.logEvent e), fun task => next (.delete task)⟩
  · have length : (byTime ((ofTask task numbered).map fun p => p.2.readBack p.1)).length =
        (trail task calls).length := by
      rw [byTime, List.length_mergeSort, List.length_map, ← map_ofTask entries, List.length_map]
    rw [holds.eventsFor, limited_eq_take (by rwa [length])]
  · rw [holds.eventsFor, limited_of_le h]
  · rw [Entry.readBack_eq fun j hj => (read j hj).1, if_pos fun j hj => (read j hj).2]

end Store

end Courier
