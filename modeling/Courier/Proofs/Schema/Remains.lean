/-
# Courier.Proofs.Schema.Remains -- what a failed opening leaves behind

Opening a database means many statements, and nothing groups them: what was carried out before a failure stays, and
so does the number of every migration that has finished. `Remains` lists the ways in which an opening fails, each
with the database that it leaves. It is the one from before only if the failure comes first of all.

`failed_opening_remains` says when that is, what the database has become if it is not, and that a creation that has
left a table behind is refused for as long as there is something of its name.
-/
import Courier.Proofs.Schema.Migration

namespace Courier.Schema

/-! ## Statements one by one -/

namespace Step

/-- Steps fail where the first of them fails, behind those that have succeeded. -/
theorem inTurn_error {steps : List Step} {c c' : Catalogue} {e : Error} (h : inTurn steps c = (.error e, c')) :
    ∃ done step rest b, steps = done ++ step :: rest ∧ inTurn done c = (.ok (), b) ∧ step b = (.error e, c') := by
  induction steps generalizing c with
  | nil => cases h
  | cons step steps ih =>
    rw [inTurn_cons] at h
    cases first : step c with
    | mk result b =>
      rw [first] at h
      cases result with
      | error e' => exact ⟨[], step, steps, c, rfl, rfl, first.trans h⟩
      | ok _ =>
        obtain ⟨done, failing, rest, d, rfl, carriedOut, fails⟩ := ih h
        refine ⟨step :: done, failing, rest, d, rfl, ?_, fails⟩
        rw [inTurn_cons, first]
        exact carriedOut

theorem inTurn_flatMap {α : Type} (f : α → List Step) (xs : List α) (c : Catalogue) :
    inTurn (xs.map fun x => inTurn (f x)) c = inTurn (xs.flatMap f) c := by
  induction xs generalizing c with
  | nil => rfl
  | cons x xs ih =>
    rw [List.map_cons, List.flatMap_cons, inTurn_append, inTurn_cons]
    obtain ⟨result, b⟩ := inTurn (f x) c
    cases result with
    | error e => rfl
    | ok _ => exact ih b

theorem count_of_created {done : List Step} (h : ∀ step ∈ done, step.Creates) {c c' : Catalogue}
    (carriedOut : inTurn done c = (.ok (), c')) :
    Catalogue.Extends c c' ∧ c'.version = c.version ∧ c'.count = c.count + done.length := by
  induction done generalizing c with
  | nil =>
    cases carriedOut
    exact ⟨.refl _, rfl, rfl⟩
  | cons step done ih =>
    obtain ⟨b, first, others⟩ := inTurn_cons_ok carriedOut
    have created := (h step List.mem_cons_self).of_ok first
    obtain ⟨more, version, count⟩ := ih (fun step hs => h step (List.mem_cons_of_mem _ hs)) others
    refine ⟨created.behind.trans more, version.trans created.version, ?_⟩
    rw [count, created.count, List.length_cons]
    omega

end Step

/-! ## Creations -/

/-- The statements that create the tables of a version. -/
def Version.statements (v : Version) : List Step := v.tables.flatMap Table.statements

theorem Version.creates_statements (v : Version) : ∀ statement ∈ v.statements, statement.Creates := by
  intro statement hs
  obtain ⟨t, -, hs⟩ := List.mem_flatMap.mp hs
  exact t.creates_statements statement hs

theorem Version.create_eq (v : Version) (c : Catalogue) :
    v.create c = Step.inTurn (v.statements ++ [setVersion v.number]) c := by
  have tables : Step.inTurn (v.tables.map Table.create) c = Step.inTurn v.statements c :=
    Step.inTurn_flatMap Table.statements v.tables c
  unfold Version.create
  rw [Step.inTurn_append, Step.inTurn_append, tables]

/-- Of a creation, the writing of the number comes last. -/
theorem Version.done_prefix {v : Version} {done rest : List Step} {statement : Step}
    (inOrder : v.statements ++ [setVersion v.number] = done ++ statement :: rest) : done <+: v.statements := by
  refine List.prefix_of_prefix_length_le ⟨statement :: rest, inOrder.symm⟩ (List.prefix_append _ _) ?_
  have lengths := congrArg List.length inOrder
  simp only [List.length_append, List.length_cons, List.length_nil] at lengths
  omega

theorem Version.creates_done {v : Version} {done rest : List Step} {statement : Step}
    (inOrder : v.statements ++ [setVersion v.number] = done ++ statement :: rest) : ∀ step ∈ done, step.Creates :=
  fun step hs => v.creates_statements step ((Version.done_prefix inOrder).subset hs)

/-- A creation fails with one of its statements, which has done nothing, or with the writing of its number. -/
theorem Version.create_error {v : Version} {c c' : Catalogue} {e : Error} (h : v.create c = (.error e, c')) :
    ∃ done statement rest, v.statements ++ [setVersion v.number] = done ++ statement :: rest ∧
      Step.inTurn done c = (.ok (), c') ∧ statement c' = (.error e, c') := by
  rw [v.create_eq] at h
  obtain ⟨done, statement, rest, b, inOrder, carriedOut, refused⟩ := Step.inTurn_error h
  have alone : c' = b := by
    have listed : statement ∈ v.statements ++ [setVersion v.number] :=
      inOrder ▸ List.mem_append_right _ List.mem_cons_self
    rcases List.mem_append.mp listed with creates | numbers
    · exact (v.creates_statements statement creates).of_error refused
    · rw [List.mem_singleton.mp numbers] at refused
      rcases setVersion_cases v.number b with written | barred
      · cases refused.symm.trans written
      · exact (Prod.mk.inj (refused.symm.trans barred)).2
  subst alone
  exact ⟨done, statement, rest, inOrder, carriedOut, refused⟩

/-- The first statement of a version creates its first table. -/
theorem Version.statements_of_head {v : Version} {t : Table} (head : v.tables.head? = some t) :
    ∃ rest, v.statements = .statement (·.createTable? t.declaration) (.tableRefused t.name) :: rest := by
  obtain ⟨others, tables⟩ := List.head?_eq_some_iff.mp head
  exact ⟨_, by rw [Version.statements, tables, List.flatMap_cons, Table.statements, List.cons_append]⟩

theorem Version.first_statement {v : Version} {statement : Step} {rest : List Step}
    (h : v.statements = statement :: rest) :
    ∃ t, v.tables.head? = some t ∧ statement = .statement (·.createTable? t.declaration) (.tableRefused t.name) := by
  cases head : v.tables.head? with
  | none =>
    rw [Version.statements, List.head?_eq_none_iff.mp head] at h
    cases h
  | some t =>
    obtain ⟨others, statements⟩ := v.statements_of_head head
    exact ⟨t, rfl, (List.cons.inj (h.symm.trans statements)).1⟩

/-- A creation of which a statement was carried out has made its first table. -/
theorem Version.first_created {v : Version} {done rest : List Step} {statement : Step} {c c' : Catalogue}
    (inOrder : v.statements ++ [setVersion v.number] = done ++ statement :: rest)
    (carriedOut : Step.inTurn done c = (.ok (), c')) (some_ : done ≠ []) :
    ∃ t, v.tables.head? = some t ∧ (c.createTable? t.declaration).isSome = true ∧ c'.isTaken t.name = true := by
  cases done with
  | nil => exact absurd rfl some_
  | cons first done =>
    obtain ⟨more, split⟩ := Version.done_prefix inOrder
    obtain ⟨t, head, rfl⟩ := v.first_statement split.symm
    obtain ⟨b, made, others⟩ := Step.inTurn_cons_ok carriedOut
    rw [Step.statement_eq_ok] at made
    obtain ⟨columns, -, there⟩ := Catalogue.table?_createTable? made
    have creates : ∀ step ∈ done, step.Creates := fun step hs =>
      Version.creates_done inOrder step (List.mem_cons_of_mem _ hs)
    have behind := (Step.count_of_created creates others).1
    exact ⟨t, head, by rw [made]; rfl, behind.isTaken (Catalogue.isTaken_of_table? there)⟩

/-- A creation is refused at once if the name of its first table is taken. -/
theorem Version.create_of_taken {v : Version} {t : Table} {c : Catalogue} (head : v.tables.head? = some t)
    (taken : c.isTaken t.name = true) : v.create c = (.error (.tableRefused t.name), c) := by
  obtain ⟨rest, statements⟩ := v.statements_of_head head
  have refused : c.createTable? t.declaration = none := Catalogue.createTable?_of_taken taken
  rw [v.create_eq, statements, List.cons_append, Step.inTurn_cons, Step.statement, refused]

/-! ## Failed openings -/

/-- What is left of a database by an opening that fails: which migrations have finished, why it failed, and the
database afterwards. -/
inductive Remains (versions : List Version) (c : Catalogue) : Bool → List Version → Error → Catalogue → Prop
  /-- The opening was refused before it did anything. -/
  | untouched {isNew : Bool} {e : Error} (refused : refusal? versions isNew c = some e) :
      Remains versions c isNew [] e c
  /-- A statement of the creation was refused, or the number at its end, and those before it were carried out. -/
  | creating {latest : Version} {done rest : List Step} {statement : Step} {e : Error} {c' : Catalogue}
      (last : versions.getLast? = some latest)
      (inOrder : latest.statements ++ [setVersion latest.number] = done ++ statement :: rest)
      (carriedOut : Step.inTurn done c = (.ok (), c')) (refused : statement c' = (.error e, c')) :
      Remains versions c true [] e c'
  /-- A migration has failed, after whatever it has done, or its number was refused, and those before it have
  finished. -/
  | migrating {place : Nat} {done rest : List Version} {v : Version} {before c' : Catalogue} {e : Error}
      (begun : refusal? versions false c = none) (named : readVersion c = .ok place)
      (inOrder : versions.drop (place + 1) = done ++ v :: rest) (finished : Applied done c before)
      (fails : v.migrate before = (.error e, c')) : Remains versions c false done e c'
  /-- All migrations have finished, but the result is not the latest version. -/
  | comparing {place : Nat} {latest : Version} {c' : Catalogue} {e : Error}
      (begun : refusal? versions false c = none) (named : readVersion c = .ok place)
      (last : versions.getLast? = some latest) (finished : Applied (versions.drop (place + 1)) c c')
      (differs : latest.validate c' = .error e) : Remains versions c false (versions.drop (place + 1)) e c'

/-- Every opening that fails does so in one of these ways. -/
theorem remains_of_error {versions : List Version} {isNew : Bool} {c c' : Catalogue} {e : Error}
    (failed : prepare versions isNew c = (.error e, c')) : ∃ finished, Remains versions c isNew finished e c' := by
  rcases prepare_eq versions isNew c with
    ⟨e', refused, opened⟩ | ⟨begun, latest, last, ⟨rfl, opened⟩ | ⟨rfl, place, current, named, -, -, opened⟩⟩
  · cases opened.symm.trans failed
    exact ⟨[], .untouched refused⟩
  · obtain ⟨done, statement, rest, inOrder, carriedOut, refused⟩ := Version.create_error (opened.symm.trans failed)
    exact ⟨[], .creating last inOrder carriedOut refused⟩
  · rw [failed] at opened
    split at opened
    · cases opened
    rw [Step.inTurn_append] at opened
    rcases migrations_cases (versions.drop (place + 1)) c with
      ⟨b, finished, result⟩ | ⟨done, v, rest, before, e', b, inOrder, finished, fails, result⟩
    · -- All migrations have finished, so it was the last comparison that has failed.
      rw [result] at opened
      cases differs : latest.validate b with
      | ok _ => cases opened.trans (Step.inTurn_check_ok differs)
      | error e' =>
        cases opened.trans (Step.inTurn_check_error differs)
        exact ⟨_, .comparing begun named last finished differs⟩
    · rw [result] at opened
      cases opened
      exact ⟨done, .migrating begun named inOrder finished fails⟩

/-! ## What is there afterwards -/

theorem Applied.adds {versions : List Version} {c c' : Catalogue} (applied : Applied versions c c')
    (h : ∀ v ∈ versions, v.apply.Adds) : Catalogue.Extends c c' := by
  induction applied with
  | nil c => exact .refl c
  | @cons v rest c finished c' finishes _ _ ih =>
    have first := (h v List.mem_cons_self).extends finishes
    exact (first.trans (extends_setVersion finished _)).trans (ih fun v hv => h v (List.mem_cons_of_mem _ hv))

theorem Version.adds_apply {v : Version} (h : ∀ m, v.migration = some m → m.Adds) : v.apply.Adds := by
  unfold Version.apply
  cases migration : v.migration with
  | none => exact .refl
  | some m => exact h m migration

theorem Version.adds_migrate_error {v : Version} (h : v.apply.Adds) {c c' : Catalogue} {e : Error}
    (fails : v.migrate c = (.error e, c')) : Catalogue.Extends c c' := by
  rcases Version.migrate_error fails with applied | ⟨applied, -⟩ <;> exact h.extends applied

/-- The migration to the version behind a place is the first one that runs, so if it fails none has finished. -/
theorem Applied.eq_nil_of_fails {versions : List Version} {place : Nat} {done rest : List Version} {v : Version}
    {c b c' : Catalogue} {e : Error} (applied : Applied done c c') (inOrder : versions.drop (place + 1) = done ++ rest)
    (next : versions[place + 1]? = some v) (fails : v.migrate c = (.error e, b)) : done = [] := by
  cases applied with
  | nil => rfl
  | cons finishes numbered _ =>
    obtain rfl := Option.some.inj (next.symm.trans (getElem?_of_drop inOrder))
    rcases Version.migrate_error fails with applied | ⟨applied, refused⟩
    · cases applied.symm.trans finishes
    · obtain rfl := (Prod.mk.inj (applied.symm.trans finishes)).2
      cases refused.symm.trans numbered

theorem getLast?_of_drop {versions : List Version} {place : Nat} {v : Version} (found : versions[place]? = some v)
    (nothing : versions.drop (place + 1) = []) : versions.getLast? = some v := by
  obtain ⟨inside, -⟩ := List.getElem?_eq_some_iff.mp found
  rw [List.drop_eq_nil_iff] at nothing
  rw [List.getLast?_eq_getElem?, ← found]
  congr 1
  omega

/-- An opening that has begun has found the version of the database, and the database agrees with it. -/
theorem begins_at {versions : List Version} {c : Catalogue} {place : Nat} (begun : refusal? versions false c = none)
    (named : readVersion c = .ok place) :
    ∃ current, versions[place]? = some current ∧ current.validate c = .ok () := by
  rcases prepare_eq versions false c with
    ⟨e, refused, -⟩ | ⟨-, latest, -, ⟨isNew, -⟩ | ⟨-, place', current, named', found, valid, -⟩⟩
  · cases begun.symm.trans refused
  · cases isNew
  · obtain rfl : place = place' := Except.ok.inj (named.symm.trans named')
    exact ⟨current, found, valid⟩

namespace Remains

variable {versions finished : List Version} {isNew : Bool} {c c' : Catalogue} {e : Error}

/-- If migrations only add, everything that was there before is still there. -/
theorem adds (h : Remains versions c isNew finished e c')
    (adds : isNew = true ∨ ∀ v ∈ versions, ∀ m, v.migration = some m → m.Adds) : Catalogue.Extends c c' := by
  cases h with
  | untouched _ => exact .refl _
  | creating _ inOrder carriedOut _ => exact (Step.count_of_created (Version.creates_done inOrder) carriedOut).1
  | @migrating place _ _ v _ _ _ _ _ inOrder applied fails =>
    have each : ∀ v ∈ versions.drop (place + 1), v.apply.Adds := fun v hv =>
      Version.adds_apply (adds.resolve_left nofun v (List.mem_of_mem_drop hv))
    rw [inOrder] at each
    exact (applied.adds fun v hv => each v (List.mem_append_left _ hv)).trans
      (Version.adds_migrate_error (each v (List.mem_append_right _ List.mem_cons_self)) fails)
  | comparing _ _ _ applied _ =>
    exact applied.adds fun v hv => Version.adds_apply (adds.resolve_left nofun v (List.mem_of_mem_drop hv))

/-- The number in the database is that of the last migration that has finished. -/
theorem version (h : Remains versions c isNew finished e c') (orderly : isNew = true ∨ Orderly versions) :
    c'.version = c.version + finished.length := by
  cases h with
  | untouched _ => exact (Int.add_zero _).symm
  | creating _ inOrder carriedOut _ =>
    exact (Step.count_of_created (Version.creates_done inOrder) carriedOut).2.1.trans (Int.add_zero _).symm
  | @migrating place _ rest v before _ _ _ named inOrder applied fails =>
    have orderly := orderly.resolve_left nofun
    have start := readVersion_eq_ok.mp named
    have mem : v ∈ versions :=
      List.mem_of_mem_drop (i := place + 1) (inOrder ▸ List.mem_append_right _ List.mem_cons_self)
    rw [orderly.version_of_failure mem fails, applied.version orderly inOrder start, start]
    omega
  | comparing _ named _ applied _ =>
    have start := readVersion_eq_ok.mp named
    rw [applied.version (orderly.resolve_left nofun) (List.append_nil _).symm start, start]
    omega

/-- A failed creation has left nothing behind if and only if its first statement was refused. -/
theorem untouched_of_new (h : Remains versions c true finished e c') :
    c' = c ↔ ∀ latest, versions.getLast? = some latest → ∀ t, latest.tables.head? = some t →
      c.createTable? t.declaration = none := by
  cases h with
  | untouched refused =>
    refine iff_of_true rfl fun latest last => ?_
    rw [refusal?, last] at refused
    cases refused
  | @creating latest done rest statement _ _ last inOrder carriedOut refused =>
    cases done with
    | nil =>
      -- The statement that was refused is the first one, and it creates the first table.
      cases carriedOut
      refine iff_of_true rfl fun latest' last' t head => ?_
      obtain rfl : latest = latest' := Option.some.inj (last.symm.trans last')
      obtain ⟨others, statements⟩ := latest.statements_of_head head
      rw [statements] at inOrder
      obtain rfl := (List.cons.inj inOrder).1
      exact Step.statement_eq_error.mp refused |>.1
    | cons first done =>
      -- A statement was carried out, so something is there that was not: the first table above all.
      have more := (Step.count_of_created (Version.creates_done inOrder) carriedOut).2.2
      obtain ⟨t, head, made, -⟩ := latest.first_created inOrder carriedOut (List.cons_ne_nil _ _)
      refine iff_of_false (fun same => ?_) fun none_ => ?_
      · rw [same, List.length_cons] at more
        omega
      · rw [none_ latest last t head] at made
        cases made

/-- A creation that has left something behind is refused for as long as the name of its first table is taken,
whatever else has changed. -/
theorem created_again (h : Remains versions c true finished e c') (some_ : c' ≠ c) :
    ∃ latest t, versions.getLast? = some latest ∧ latest.tables.head? = some t ∧ c'.isTaken t.name = true ∧
      ∀ d : Catalogue, d.isTaken t.name = true → prepare versions true d = (.error (.tableRefused t.name), d) := by
  cases h with
  | untouched _ => exact absurd rfl some_
  | @creating latest done rest statement _ _ last inOrder carriedOut refused =>
    cases done with
    | nil =>
      cases carriedOut
      exact absurd rfl some_
    | cons first done =>
      obtain ⟨t, head, -, taken⟩ := latest.first_created inOrder carriedOut (List.cons_ne_nil _ _)
      refine ⟨latest, t, last, head, taken, fun d taken => ?_⟩
      simp only [prepare, last, if_true]
      exact Version.create_of_taken head taken

/-- A failed opening of a database that is there has left it as it was if and only if it was refused at once, or the
first migration failed, itself or with its number, without having done anything. -/
theorem untouched_of_there (h : Remains versions c false finished e c') (orderly : Orderly versions) :
    c' = c ↔ refusal? versions false c = some e ∨
      refusal? versions false c = none ∧ ∃ place v, readVersion c = .ok place ∧ versions[place + 1]? = some v ∧
        v.migrate c = (.error e, c) := by
  -- The number tells whether a migration has finished.
  have counted := h.version (Or.inr orderly)
  cases h with
  | untouched refused => exact iff_of_true rfl (Or.inl refused)
  | @migrating place done rest v before _ _ begun named inOrder applied fails =>
    constructor
    · rintro rfl
      have nothing : finished = [] := List.length_eq_zero_iff.mp (by omega)
      subst nothing
      cases applied
      exact Or.inr ⟨begun, place, v, named, getElem?_of_drop inOrder, fails⟩
    · rintro (refused | ⟨-, place', v', named', next, fails'⟩)
      · cases begun.symm.trans refused
      · obtain rfl : place = place' := Except.ok.inj (named.symm.trans named')
        have nothing := applied.eq_nil_of_fails inOrder next fails'
        subst nothing
        cases applied
        obtain rfl : v = v' := Option.some.inj ((getElem?_of_drop inOrder).symm.trans next)
        exact congrArg Prod.snd (fails.symm.trans fails')
  | @comparing place latest _ _ begun named last applied differs =>
    constructor
    · rintro rfl
      -- No migration is left, so the comparison at the start and the one at the end are the same.
      have nothing : versions.drop (place + 1) = [] := List.length_eq_zero_iff.mp (by omega)
      obtain ⟨current, found, valid⟩ := begins_at begun named
      obtain rfl : latest = current := Option.some.inj (last.symm.trans (getLast?_of_drop found nothing))
      cases differs.symm.trans valid
    · rintro (refused | ⟨-, place', v', named', next, fails'⟩)
      · cases begun.symm.trans refused
      · obtain rfl : place = place' := Except.ok.inj (named.symm.trans named')
        have nothing := applied.eq_nil_of_fails (List.append_nil _).symm next fails'
        rw [← List.head?_drop, nothing] at next
        cases next

end Remains

/-- An opening that fails takes nothing back. What it leaves is what the steps before the failing one have made of the
database, and that step as far as it came: everything is still there if migrations only add, and the number is that of
the last migration that has finished, when versions are numbered by their places, fit, and migrations leave the number
alone. The database is as it was before if and only if the opening failed first of all; a creation that did not is
refused for as long as there is something of the name of its first table, which there is now. -/
theorem failed_opening_remains {versions : List Version} {isNew : Bool} {c c' : Catalogue} {e : Error}
    (failed : prepare versions isNew c = (.error e, c')) :
    ∃ finished, Remains versions c isNew finished e c' ∧
      ((isNew = true ∨ ∀ v ∈ versions, ∀ m, v.migration = some m → m.Adds) → Catalogue.Extends c c') ∧
      ((isNew = true ∨ Orderly versions) → c'.version = c.version + finished.length) ∧
      (isNew = true →
        (c' = c ↔ ∀ latest, versions.getLast? = some latest → ∀ t, latest.tables.head? = some t →
          c.createTable? t.declaration = none) ∧
        (c' ≠ c → ∃ latest t, versions.getLast? = some latest ∧ latest.tables.head? = some t ∧
          c'.isTaken t.name = true ∧ ∀ d : Catalogue, d.isTaken t.name = true →
            prepare versions true d = (.error (.tableRefused t.name), d))) ∧
      (isNew = false → Orderly versions →
        (c' = c ↔ refusal? versions false c = some e ∨
          refusal? versions false c = none ∧ ∃ place v, readVersion c = .ok place ∧ versions[place + 1]? = some v ∧
            v.migrate c = (.error e, c))) := by
  obtain ⟨finished, remains⟩ := remains_of_error failed
  refine ⟨finished, remains, remains.adds, remains.version, fun isNew => ?_, fun isNew orderly => ?_⟩
  · subst isNew
    exact ⟨remains.untouched_of_new, remains.created_again⟩
  · subst isNew
    exact remains.untouched_of_there orderly

/-- A task database of the first version in which somebody else has an index of a name that the next version needs. -/
def crowdedTaskDatabase : Catalogue :=
  firstTaskDatabase.declare { name := "notes", columns := [{ name := "at", type := "INTEGER" }] }
    [("idx_task_events_task", "at")]

theorem failed_opening_remains_crowded :
    let c := crowdedTaskDatabase
    let c' := (prepare taskVersions false c).2
    prepare taskVersions false c = (.error .database, c') ∧ Orderly taskVersions ∧
      (∀ v ∈ taskVersions, ∀ m, v.migration = some m → m.Adds) ∧
      (∃ finished, Remains taskVersions c false finished .database c' ∧ Catalogue.Extends c c' ∧
        c'.version = c.version + finished.length) ∧
      ¬(refusal? taskVersions false c = some .database ∨
        refusal? taskVersions false c = none ∧ ∃ place v, readVersion c = .ok place ∧
          taskVersions[place + 1]? = some v ∧ v.migrate c = (.error .database, c)) := by
  intro c c'
  have failed : prepare taskVersions false c = (.error .database, c') := Prod.ext (by decide +kernel) rfl
  have onlyAdds : ∀ v ∈ taskVersions, ∀ m, v.migration = some m → m.Adds := by
    intro v hv m hm
    simp only [taskVersions, List.mem_cons, List.not_mem_nil, or_false] at hv
    rcases hv with rfl | rfl
    · cases hm
    · obtain rfl := Option.some.inj hm
      exact eventTable.adds_create
  have touched : c' ≠ c := by decide +kernel
  obtain ⟨finished, remains, adds, number, -, untouched⟩ := failed_opening_remains failed
  exact ⟨failed, taskVersions_orderly, onlyAdds,
    ⟨finished, remains, adds (Or.inr onlyAdds), number (Or.inr taskVersions_orderly)⟩,
    fun first => touched ((untouched rfl taskVersions_orderly).mpr first)⟩

/-- A database without its indices of a name. -/
def withoutIndex (c : Catalogue) (name : String) : Catalogue :=
  { c with indices := c.indices.filter (·.name != name) }

/-- The migration has made its table when the index is refused. Without the index of the same name the database would
have been opened; once the opening has failed, it is refused even so. -/
theorem failed_opening_keeps_table :
    let c := crowdedTaskDatabase
    let c' := (prepare taskVersions false c).2
    (prepare taskVersions false c).1 = .error .database ∧ c.isTaken "task_events" = false ∧
      c'.isTaken "task_events" = true ∧
      (prepare taskVersions false (withoutIndex c "idx_task_events_task")).1 = .ok () ∧
      (prepare taskVersions false (withoutIndex c' "idx_task_events_task")).1 =
        .error (.tableRefused "task_events") := by
  decide +kernel

end Courier.Schema
