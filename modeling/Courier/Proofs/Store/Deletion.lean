/-
# Courier.Proofs.Store.Deletion -- a deletion takes all of a task or nothing

A transaction leaves what its statements have done one after the other, or it fails and leaves the
database as it was (`transact_eq_ok_iff`, `transact_error`). For a deletion this means three outcomes, and
`delete_atomic` says when each of them comes and what it leaves, wherever the database breaks down and
whichever of its tables are there.
-/
import Courier.Store.Transaction
import Courier.Proofs.Store.Status

namespace Courier.Store

variable {s t : Store} {id : String} {statements : List Statement} {counts : List Nat} {e : Error}

/-! ## Statements in turn -/

theorem executeAll_cons_eq_ok {statement : Statement} :
    executeAll (statement :: statements) s = (.ok counts, t) ↔
      ∃ n u rest, statement s = .ok (n, u) ∧ executeAll statements u = (.ok rest, t) ∧ counts = n :: rest := by
  rw [executeAll]
  cases first : statement s with
  | error e => simp
  | ok result =>
    obtain ⟨n, u⟩ := result
    cases others : executeAll statements u with
    | mk answer v => cases answer <;> simp [others, eq_comm, and_comm]

/-- Statements in turn fail with the words of one of them. -/
theorem exists_statement_of_error (h : (executeAll statements s).1 = .error e) :
    ∃ statement ∈ statements, ∃ u, statement u = .error e := by
  induction statements generalizing s with
  | nil => cases h
  | cons statement statements ih =>
    rw [executeAll] at h
    cases first : statement s with
    | error e' =>
      rw [first] at h
      cases h
      exact ⟨statement, List.mem_cons_self, s, first⟩
    | ok result =>
      obtain ⟨n, u⟩ := result
      simp only [first] at h
      have others : (executeAll statements u).1 = .error e := by
        generalize executeAll statements u = run at h
        obtain ⟨answer, v⟩ := run
        cases answer <;> cases h
        rfl
      obtain ⟨failing, mem, fails⟩ := ih others
      exact ⟨failing, List.mem_cons_of_mem _ mem, fails⟩

theorem Statement.onDatabase_eq_ok {statement : Statement} {broken : Bool} {result : Nat × Store} :
    statement.onDatabase broken s = .ok result ↔ broken = false ∧ statement s = .ok result := by
  unfold Statement.onDatabase
  cases broken <;> simp

/-- Statements that are all carried out have met no failure of the database. -/
theorem executeAll_onDatabase_eq_ok {broken : Nat → Bool} :
    executeAll (statements.mapIdx fun i statement => statement.onDatabase (broken i)) s = (.ok counts, t) ↔
      (∀ i < statements.length, broken i = false) ∧ executeAll statements s = (.ok counts, t) := by
  induction statements generalizing s broken counts with
  | nil => simp
  | cons statement statements ih =>
    simp only [List.mapIdx_cons, executeAll_cons_eq_ok, Statement.onDatabase_eq_ok, ih, List.length_cons]
    constructor
    · rintro ⟨n, u, rest, ⟨first, done⟩, ⟨later, others⟩, rfl⟩
      refine ⟨fun i hi => ?_, n, u, rest, done, others, rfl⟩
      cases i with
      | zero => exact first
      | succ i => exact later i (Nat.lt_of_succ_lt_succ hi)
    · rintro ⟨whole, n, u, rest, done, others, rfl⟩
      exact ⟨n, u, rest, ⟨whole 0 (Nat.succ_pos _), done⟩,
        ⟨fun i hi => whole (i + 1) (Nat.succ_lt_succ hi), others⟩, rfl⟩

/-! ## Transactions -/

/-- Does the database fail somewhere on the way through a transaction of so many statements? -/
def Breakdown.Interrupts (b : Breakdown) (length : Nat) : Prop :=
  b.begin = true ∨ (∃ i < length, b.statement i = true) ∨ b.commit = true

/-- A transaction succeeds if its statements do and the database does not fail. -/
theorem transact_eq_ok_iff {b : Breakdown} :
    transact b statements s = (.ok counts, t) ↔
      ¬ b.Interrupts statements.length ∧ executeAll statements s = (.ok counts, t) := by
  have whole : ¬ b.Interrupts statements.length ↔
      b.begin = false ∧ (∀ i < statements.length, b.statement i = false) ∧ b.commit = false := by
    simp [Breakdown.Interrupts]
  rw [whole]
  unfold transact
  cases b.begin with
  | true => simp
  | false =>
    have run : executeAll (statements.mapIdx fun i statement => statement.onDatabase (b.statement i)) s =
        (.ok counts, t) ↔ _ := executeAll_onDatabase_eq_ok
    generalize executeAll (statements.mapIdx fun i statement => statement.onDatabase (b.statement i)) s = done
      at run ⊢
    obtain ⟨answer, u⟩ := done
    cases answer with
    | error e => simp_all
    | ok counts' => cases b.commit <;> simp_all

/-- A transaction that fails leaves the database as it was, and fails with its own words or with those of a
statement. -/
theorem transact_error {b : Breakdown} (h : (transact b statements s).1 = .error e) :
    (transact b statements s).2 = s ∧ (e = .database ∨ ∃ statement ∈ statements, ∃ u, statement u = .error e) := by
  unfold transact at h ⊢
  split at h
  · cases h
    simp_all
  · rename_i begun
    rw [if_neg begun]
    generalize hrun : executeAll (statements.mapIdx fun i statement => statement.onDatabase (b.statement i)) s = run
      at h ⊢
    obtain ⟨answer, u⟩ := run
    cases answer with
    | error e' =>
      cases h
      obtain ⟨failing, mem, v, fails⟩ := exists_statement_of_error (congrArg Prod.fst hrun)
      obtain ⟨i, hi, rfl⟩ := List.mem_mapIdx.mp mem
      refine ⟨rfl, ?_⟩
      unfold Statement.onDatabase at fails
      split at fails
      · exact .inl (Except.error.inj fails).symm
      · exact .inr ⟨_, List.getElem_mem hi, v, fails⟩
    | ok counts =>
      simp only at h ⊢
      split at h
      · cases h
        simp_all
      · cases h

/-! ## Deleting -/

theorem deleteRows_eq_ok_iff {n : Nat} :
    deleteRows id s = .ok (n, t) ↔ ∃ rows, s.rows? = some rows ∧ n = (rows.filter fun r => r.id = id).length ∧
      t = { s with rows? := some (rows.filter fun r => r.id ≠ id) } := by
  unfold deleteRows Store.rows
  cases s.rows? <;> simp [bind, Except.bind, pure, Except.pure, eq_comm]

theorem deleteMarks_eq_ok_iff {n : Nat} :
    deleteMarks id s = .ok (n, t) ↔ ∃ marks, s.marks? = some marks ∧
      n = (marks.filter fun m => m.taskId = id).length ∧
      t = { s with marks? := some (marks.filter fun m => m.taskId ≠ id) } := by
  unfold deleteMarks Store.marks
  cases s.marks? <;> simp [bind, Except.bind, pure, Except.pure, eq_comm]

/-- A deletion from a table fails where there is no table. -/
theorem eq_database_of_deleteRows (h : deleteRows id s = .error e) : e = .database := by
  unfold deleteRows Store.rows at h
  cases hrows : s.rows? <;> rw [hrows] at h <;> cases h
  rfl

theorem eq_database_of_deleteMarks (h : deleteMarks id s = .error e) : e = .database := by
  unfold deleteMarks Store.marks at h
  cases hmarks : s.marks? <;> rw [hmarks] at h <;> cases h
  rfl

/-- Both statements are carried out if both tables are there. -/
theorem executeAll_delete_iff :
    executeAll [deleteRows id, deleteMarks id] s = (.ok counts, t) ↔
      ∃ rows marks, s.rows? = some rows ∧ s.marks? = some marks ∧
        counts = [(rows.filter fun r => r.id = id).length, (marks.filter fun m => m.taskId = id).length] ∧
        t = { rows? := some (rows.filter fun r => r.id ≠ id)
              marks? := some (marks.filter fun m => m.taskId ≠ id) } := by
  simp only [executeAll_cons_eq_ok, deleteRows_eq_ok_iff, deleteMarks_eq_ok_iff]
  constructor
  · rintro ⟨_, _, _, ⟨rows, hrows, rfl, rfl⟩, ⟨_, _, _, ⟨marks, hmarks, rfl, rfl⟩, done, rfl⟩, rfl⟩
    cases done
    exact ⟨rows, marks, hrows, hmarks, rfl, rfl⟩
  · rintro ⟨rows, marks, hrows, hmarks, rfl, rfl⟩
    exact ⟨_, _, _, ⟨rows, hrows, rfl, rfl⟩, ⟨_, _, _, ⟨marks, hmarks, rfl, rfl⟩, rfl, rfl⟩, rfl⟩

/-- The three outcomes of a deletion: it fails and changes nothing, or both tables lose what they have of the task and
the answer is whether there was a record. -/
theorem deleteOn_cases (b : Breakdown) (s : Store) (id : String) :
    (b.Interrupts 2 ∨ s.rows? = none ∨ s.marks? = none) ∧ deleteOn b s id = (.error .database, s) ∨
      ∃ rows marks, ¬ b.Interrupts 2 ∧ s.rows? = some rows ∧ s.marks? = some marks ∧
        deleteOn b s id = (if id ∈ rows.map Row.id then .ok () else .error (.notFound id),
          { rows? := some (rows.filter fun r => r.id ≠ id)
            marks? := some (marks.filter fun m => m.taskId ≠ id) }) := by
  cases run : transact b [deleteRows id, deleteMarks id] s with
  | mk answer t =>
    cases answer with
    | error e =>
      obtain ⟨same, why⟩ := transact_error (congrArg Prod.fst run)
      have database : e = .database := by
        rcases why with why | ⟨statement, mem, u, fails⟩
        · exact why
        · simp only [List.mem_cons, List.not_mem_nil, or_false] at mem
          rcases mem with rfl | rfl
          · exact eq_database_of_deleteRows fails
          · exact eq_database_of_deleteMarks fails
      have same : t = s := by rwa [run] at same
      subst database same
      refine .inl ⟨?_, by rw [deleteOn, run]⟩
      -- With both tables and no failure it would have been committed.
      by_contra whole
      obtain ⟨sound, tables⟩ := not_or.mp whole
      obtain ⟨hrows, hmarks⟩ := not_or.mp tables
      obtain ⟨rows, hrows⟩ := Option.ne_none_iff_exists'.mp hrows
      obtain ⟨marks, hmarks⟩ := Option.ne_none_iff_exists'.mp hmarks
      cases run.symm.trans (transact_eq_ok_iff.mpr
        ⟨sound, executeAll_delete_iff.mpr ⟨rows, marks, hrows, hmarks, rfl, rfl⟩⟩)
    | ok counts =>
      obtain ⟨sound, done⟩ := transact_eq_ok_iff.mp run
      obtain ⟨rows, marks, hrows, hmarks, rfl, rfl⟩ := executeAll_delete_iff.mp done
      refine .inr ⟨rows, marks, sound, hrows, hmarks, ?_⟩
      rw [deleteOn, run]
      have counted : [(rows.filter fun r => r.id = id).length, (marks.filter fun m => m.taskId = id).length].head? =
          some 0 ↔ id ∉ rows.map Row.id := by
        simp [List.filter_eq_nil_iff]
      by_cases known : id ∈ rows.map Row.id
      · simp only [counted, known, not_true, if_false, if_true]
      · simp only [counted, known, not_false_eq_true, if_true, if_false]

/-- On a database that does not break down the statements are the deletion as a whole. -/
theorem deleteOn_healthy (s : Store) (id : String) : deleteOn {} s id = s.delete id := by
  have sound : ¬ ({} : Breakdown).Interrupts 2 := by simp [Breakdown.Interrupts]
  rcases deleteOn_cases {} s id with ⟨why, failed⟩ | ⟨rows, marks, -, hrows, hmarks, done⟩
  · rw [failed, delete]
    rcases why.resolve_left sound with missing | missing
    · simp only [missing]
    · simp only [missing]
      cases s.rows? <;> rfl
  · have known : (rows.any fun r => r.id = id) = true ↔ id ∈ rows.map Row.id := by
      simp
    rw [done, delete, hrows, hmarks]
    simp only [known]

/-- A deletion takes a task and its entries, or it fails and takes nothing. It fails exactly if the database breaks
down at a statement, at the beginning or at the commit, or if a table is missing; then every record and every entry is
as before. Otherwise the record of the task and all its entries are gone, all other records and entries are there as
they were and in their order, and the answer is that the task was not found if and only if it had no record, whatever
entries it had. -/
theorem delete_atomic (s : Store) (id : String) :
    deleteOn {} s id = s.delete id ∧ ∀ b : Breakdown,
      let answer := (deleteOn b s id).1
      let t := (deleteOn b s id).2
      (answer = .error .database ↔ b.Interrupts 2 ∨ s.rows? = none ∨ s.marks? = none) ∧
      (answer = .error .database → t = s) ∧
      (answer ≠ .error .database →
        ∃ rows marks, s.rows? = some rows ∧ s.marks? = some marks ∧
          t.rows? = some (rows.filter fun r => r.id ≠ id) ∧ t.marks? = some (marks.filter fun m => m.taskId ≠ id) ∧
          (answer = .error (.notFound id) ↔ ∀ r ∈ rows, r.id ≠ id) ∧
          (answer = .ok () ↔ ∃ r ∈ rows, r.id = id)) := by
  refine ⟨deleteOn_healthy s id, fun b => ?_⟩
  intro answer t
  rcases deleteOn_cases b s id with ⟨why, failed⟩ | ⟨rows, marks, sound, hrows, hmarks, done⟩
  · have answered : answer = .error .database := congrArg Prod.fst failed
    exact ⟨iff_of_true answered why, fun _ => congrArg Prod.snd failed, fun h => absurd answered h⟩
  · have answered : answer = if id ∈ rows.map Row.id then .ok () else .error (.notFound id) := congrArg Prod.fst done
    have left : t = _ := congrArg Prod.snd done
    have other : answer ≠ .error .database := by
      rw [answered]
      split <;> simp
    refine ⟨iff_of_false other (by simp [sound, hrows, hmarks]), fun h => absurd h other,
      fun _ => ⟨rows, marks, hrows, hmarks, by rw [left], by rw [left], ?_, ?_⟩⟩
    · rw [answered]
      split <;> simp_all
    · rw [answered]
      split <;> simp_all

/-- The database fails at the second statement, when the record is gone already: it is there again. -/
example :
    let film : Row := ⟨"a", "film", "mem", [], .known .pending, 3, 3, none, ""⟩
    let store : Store := { rows? := some [film], marks? := some [⟨1, "a", .known .submitted, 3, none⟩] }
    (deleteRows "a" store).map (fun done => done.2.ids) = .ok [] ∧
      deleteOn { statement := fun i => i = 1 } store "a" = (.error .database, store) := by
  decide

end Courier.Store
