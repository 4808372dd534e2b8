/-
# Courier.Proofs.Schema.Migration -- what opening makes of a database

A database names its version by one number, and opening it brings it from there to the latest version. The number,
the place of a version in the list and the number that the version has itself all play the same part, and the
migrations in between can do anything to the tables and can fail half-way.

`Applied` is what a row of migrations leaves behind when every one of them has finished. An opening is such a row,
perhaps cut off by the first migration that fails (`Progress`), so the number in the database always is that of the
last migration that has finished. `opening_reaches_latest` puts this together.
-/
import Courier.Proofs.Schema.Statements
import Courier.Schema.Tasks

namespace Courier.Schema

/-! ## Comparisons -/

namespace Step

theorem inTurn_check_ok {f : Catalogue → Except Error Unit} {rest : List Step} {c : Catalogue} (h : f c = .ok ()) :
    inTurn (check f :: rest) c = inTurn rest c := by
  rw [inTurn_cons, check, h]

theorem inTurn_check_error {f : Catalogue → Except Error Unit} {rest : List Step} {c : Catalogue} {e : Error}
    (h : f c = .error e) : inTurn (check f :: rest) c = (.error e, c) := by
  rw [inTurn_cons, check, h]

end Step

/-! ## Version numbers -/

theorem readVersion_eq_ok {c : Catalogue} {place : Nat} :
    readVersion c = .ok place ↔ c.version = (base + place : Nat) := by
  unfold readVersion
  split
  · rename_i foreign
    refine iff_of_false nofun fun h => ?_
    omega
  · rename_i own
    rw [Except.ok.injEq]
    omega

/-- Does a step leave the number in the database alone, whether it succeeds or not? -/
def Step.Quiet (step : Step) : Prop := ∀ c, (step c).2.version = c.version

/-- A list of versions as the program has them: every version has the number of its place, the numbers fit into
the database, and migrations leave the number alone. -/
structure Orderly (versions : List Version) : Prop where
  numbered : ∀ (place : Nat) (v : Version), versions[place]? = some v → v.number = place
  fits : ∀ v ∈ versions, base + v.number ≤ Catalogue.maxVersion
  quiet : ∀ v ∈ versions, ∀ m, v.migration = some m → m.Quiet

theorem Orderly.latest {versions : List Version} (h : Orderly versions) {latest : Version}
    (last : versions.getLast? = some latest) :
    versions[latest.number]? = some latest ∧ versions.drop (latest.number + 1) = [] := by
  rw [List.getLast?_eq_getElem?] at last
  have number := h.numbered _ _ last
  rw [number]
  refine ⟨last, List.drop_eq_nil_of_le ?_⟩
  omega

/-! ## Migrations -/

/-- What the migration to a version does, without the number behind it. -/
def Version.apply (v : Version) : Step := v.migration.getD fun c => (.ok (), c)

/-- A migration that ends well has finished, and its number was written behind it. -/
theorem Version.migrate_ok {v : Version} {c c' : Catalogue} (h : v.migrate c = (.ok (), c')) :
    ∃ finished, v.apply c = (.ok (), finished) ∧ setVersion v.number finished = (.ok (), c') ∧
      c' = finished.setVersion (base + v.number) := by
  obtain ⟨finished, applied, last⟩ := Step.inTurn_append_ok h
  obtain ⟨b, numbered, nothing⟩ := Step.inTurn_cons_ok last
  cases nothing
  refine ⟨finished, ?_, numbered, ?_⟩
  · unfold Version.apply
    cases migration : v.migration with
    | none =>
      rw [migration] at applied
      exact applied
    | some m =>
      rw [migration] at applied
      obtain ⟨d, first, nothing⟩ := Step.inTurn_cons_ok applied
      cases nothing
      exact first
  · rcases setVersion_cases v.number finished with written | refused
    · exact (Prod.mk.inj (numbered.symm.trans written)).2
    · cases numbered.symm.trans refused

/-- One that does not has failed itself, or it has finished and its number was refused. -/
theorem Version.migrate_error {v : Version} {c c' : Catalogue} {e : Error} (h : v.migrate c = (.error e, c')) :
    v.apply c = (.error e, c') ∨ v.apply c = (.ok (), c') ∧ setVersion v.number c' = (.error e, c') := by
  have numbering (b : Catalogue) (refused : Step.inTurn [setVersion v.number] b = (.error e, c')) :
      b = c' ∧ setVersion v.number c' = (.error e, c') := by
    rw [Step.inTurn_cons] at refused
    rcases setVersion_cases v.number b with written | barred
    · rw [written] at refused
      cases refused
    · rw [barred] at refused
      cases refused
      exact ⟨rfl, barred⟩
  unfold Version.migrate at h
  unfold Version.apply
  cases migration : v.migration with
  | none =>
    rw [migration] at h
    obtain ⟨rfl, refused⟩ := numbering c h
    exact .inr ⟨rfl, refused⟩
  | some m =>
    rw [migration, Option.toList_some, List.singleton_append, Step.inTurn_cons] at h
    rw [Option.getD_some]
    rcases applied : m c with ⟨_ | _, b⟩
    · rw [applied] at h
      exact .inl h
    · rw [applied] at h
      obtain ⟨rfl, refused⟩ := numbering b h
      exact .inr ⟨rfl, refused⟩

/-- What some versions in turn make of a database: the migration to each of them has run once and has finished, and
its number was written behind it. -/
inductive Applied : List Version → Catalogue → Catalogue → Prop
  | nil (c : Catalogue) : Applied [] c c
  | cons {v : Version} {rest : List Version} {c finished c' : Catalogue}
      (finishes : v.apply c = (.ok (), finished))
      (numbered : setVersion v.number finished = (.ok (), finished.setVersion (base + v.number)))
      (goesOn : Applied rest (finished.setVersion (base + v.number)) c') : Applied (v :: rest) c c'

/-- Migrations in turn: all of them finish, or one fails, with its number at the latest, and the ones before it have
finished. -/
theorem migrations_cases (versions : List Version) (c : Catalogue) :
    (∃ c', Applied versions c c' ∧ Step.inTurn (versions.map Version.migrate) c = (.ok (), c')) ∨
      ∃ done v rest before e c', versions = done ++ v :: rest ∧ Applied done c before ∧
        v.migrate before = (.error e, c') ∧ Step.inTurn (versions.map Version.migrate) c = (.error e, c') := by
  induction versions generalizing c with
  | nil => exact Or.inl ⟨c, .nil c, rfl⟩
  | cons v versions ih =>
    rw [List.map_cons, Step.inTurn_cons]
    cases migrated : v.migrate c with
    | mk result b =>
      cases result with
      | error e => exact Or.inr ⟨[], v, versions, c, e, b, rfl, .nil c, migrated, rfl⟩
      | ok _ =>
        obtain ⟨finished, finishes, numbered, rfl⟩ := Version.migrate_ok migrated
        rcases ih (finished.setVersion (base + v.number)) with
          ⟨c', all, result⟩ | ⟨done, w, rest, before, e, c', rfl, some_, fails, result⟩
        · exact Or.inl ⟨c', .cons finishes numbered all, result⟩
        · exact Or.inr ⟨v :: done, w, rest, before, e, c', rfl, .cons finishes numbered some_, fails, result⟩

theorem Orderly.version_apply {versions : List Version} (h : Orderly versions) {v : Version} (hv : v ∈ versions)
    (c : Catalogue) : (v.apply c).2.version = c.version := by
  unfold Version.apply
  cases migration : v.migration with
  | none => rfl
  | some m => exact h.quiet v hv m migration c

/-- Whether it is the migration that fails or its number, the number is the one from before. -/
theorem Orderly.version_of_failure {versions : List Version} (h : Orderly versions) {v : Version} (hv : v ∈ versions)
    {c c' : Catalogue} {e : Error} (fails : v.migrate c = (.error e, c')) : c'.version = c.version := by
  have unchanged := h.version_apply hv c
  rcases Version.migrate_error fails with applied | ⟨applied, -⟩ <;> rwa [applied] at unchanged

theorem getElem?_of_drop {versions rest : List Version} {place : Nat} {v : Version}
    (inOrder : versions.drop place = v :: rest) : versions[place]? = some v := by
  rw [← List.head?_drop, inOrder]
  rfl

/-- Versions that follow a place count the number up. -/
theorem Applied.version {versions done rest : List Version} {place : Nat} {c c' : Catalogue}
    (h : Orderly versions) (applied : Applied done c c') (follows : versions.drop (place + 1) = done ++ rest)
    (start : c.version = (base + place : Nat)) : c'.version = (base + (place + done.length) : Nat) := by
  induction applied generalizing place with
  | nil c => exact start
  | @cons v more c finished c' finishes _ goesOn ih =>
    have here : versions[place + 1]? = some v := getElem?_of_drop follows
    have number : v.number = place + 1 := h.numbered _ _ here
    have fits := h.fits v (List.mem_of_getElem? here)
    have follows' : versions.drop (place + 1 + 1) = more ++ rest := by
      rw [← List.drop_drop, follows]
      rfl
    -- The number is written behind the migration, so whatever it was before does not matter.
    have start' : (finished.setVersion (base + v.number)).version = (base + (place + 1) : Nat) := by
      rw [Catalogue.setVersion, if_pos fits, number]
    rw [ih follows' start', List.length_cons]
    omega

/-! ## The task database -/

theorem Step.Creates.quiet {step : Step} (h : step.Creates) : step.Quiet :=
  h.induction (r := fun c c' => c'.version = c.version) (fun _ => rfl) fun _ _ more => more.version

theorem Step.quiet_inTurn {steps : List Step} (h : ∀ step ∈ steps, step.Quiet) : (Step.inTurn steps).Quiet :=
  inTurn_induction (r := fun c c' => c'.version = c.version) (fun _ => rfl) (fun first second => second.trans first) h

theorem Table.quiet_create (t : Table) : t.create.Quiet :=
  Step.quiet_inTurn fun statement hs => (t.creates_statements statement hs).quiet

theorem taskVersions_orderly : Orderly taskVersions where
  numbered
    | 0, v, h => by obtain rfl := Option.some.inj h; rfl
    | 1, v, h => by obtain rfl := Option.some.inj h; rfl
    | _ + 2, v, h => by cases h
  fits := by decide
  quiet v hv m hm := by
    simp only [taskVersions, List.mem_cons, List.not_mem_nil, or_false] at hv
    rcases hv with rfl | rfl
    · cases hm
    · obtain rfl := Option.some.inj hm
      exact eventTable.quiet_create

/-- The task database as its first version makes it. -/
def firstTaskDatabase : Catalogue :=
  (Version.create { number := 0, tables := [taskTable] } {}).2

/-! ## Opening -/

/-- How far the migrations behind a place have come: those of `done` have finished, and the one after them has not
run or has failed, itself or with its number. The number in the database is that of the last one that has finished,
or the place itself. -/
structure Progress (versions : List Version) (place : Nat) (done : List Version) (c c' : Catalogue) : Prop where
  named : readVersion c = .ok place
  inOrder : done <+: versions.drop (place + 1)
  ran : Applied done c c' ∨ ∃ before v e,
    versions[place + 1 + done.length]? = some v ∧ Applied done c before ∧ v.migrate before = (.error e, c')
  number : readVersion c' = .ok (place + done.length)

theorem Progress.version_le {versions done : List Version} {place : Nat} {c c' : Catalogue}
    (h : Progress versions place done c c') : c.version ≤ c'.version := by
  rw [readVersion_eq_ok.mp h.named, readVersion_eq_ok.mp h.number]
  omega

theorem Progress.of_all {versions : List Version} (h : Orderly versions) {place : Nat} {c c' : Catalogue}
    (named : readVersion c = .ok place) (all : Applied (versions.drop (place + 1)) c c') :
    Progress versions place (versions.drop (place + 1)) c c' :=
  ⟨named, List.prefix_rfl, Or.inl all,
    readVersion_eq_ok.mpr (all.version h (List.append_nil _).symm (readVersion_eq_ok.mp named))⟩

theorem Progress.of_failure {versions done rest : List Version} (h : Orderly versions) {v : Version} {place : Nat}
    {c before c' : Catalogue} {e : Error} (named : readVersion c = .ok place)
    (behind : versions.drop (place + 1) = done ++ v :: rest) (some_ : Applied done c before)
    (fails : v.migrate before = (.error e, c')) : Progress versions place done c c' := by
  have here : versions[place + 1 + done.length]? = some v := by
    rw [← List.getElem?_drop, behind, List.getElem?_append_right (Nat.le_refl _), Nat.sub_self]
    rfl
  have unchanged := h.version_of_failure (List.mem_of_getElem? here) fails
  exact ⟨named, ⟨v :: rest, behind.symm⟩, Or.inr ⟨before, v, e, here, some_, fails⟩,
    readVersion_eq_ok.mpr (unchanged.trans (some_.version h behind (readVersion_eq_ok.mp named)))⟩

/-- Once the database is at the latest version, opening it only compares it with that. -/
theorem prepare_of_latest {versions : List Version} (h : Orderly versions) {latest : Version} {c : Catalogue}
    (last : versions.getLast? = some latest) (named : readVersion c = .ok latest.number) :
    prepare versions false c = (latest.validate c, c) := by
  simp only [prepare, last, named, (h.latest last).1, Step.check, if_true, Bool.false_eq_true, if_false]

/-- Why an opening is refused before it does anything to the database. -/
def refusal? (versions : List Version) (isNew : Bool) (c : Catalogue) : Option Error :=
  match versions.getLast? with
  | none => some .noVersions
  | some _ =>
    if isNew then none
    else
      match readVersion c with
      | .error e => some e
      | .ok place =>
        match versions[place]? with
        | none => some (.tooNew place (versions.length - 1))
        | some current =>
          match current.validate c with
          | .error e => some e
          | .ok _ => none

/-- An opening is refused at once, or it creates the latest version, or it goes on from the version of the database:
with all migrations behind it, unless it is the latest one, and then the comparison with the latest one. -/
theorem prepare_eq (versions : List Version) (isNew : Bool) (c : Catalogue) :
    (∃ e, refusal? versions isNew c = some e ∧ prepare versions isNew c = (.error e, c)) ∨
      refusal? versions isNew c = none ∧ ∃ latest, versions.getLast? = some latest ∧
        (isNew = true ∧ prepare versions isNew c = latest.create c ∨
          isNew = false ∧ ∃ place current, readVersion c = .ok place ∧ versions[place]? = some current ∧
            current.validate c = .ok () ∧
            prepare versions isNew c =
              if place = latest.number then (.ok (), c)
              else Step.inTurn ((versions.drop (place + 1)).map Version.migrate ++
                [Step.check (Version.validate · latest)]) c) := by
  unfold refusal? prepare
  cases last : versions.getLast? with
  | none => exact Or.inl ⟨.noVersions, rfl, rfl⟩
  | some latest =>
    cases isNew with
    | true => exact Or.inr ⟨rfl, latest, rfl, Or.inl ⟨rfl, rfl⟩⟩
    | false =>
      cases named : readVersion c with
      | error e => exact Or.inl ⟨e, rfl, rfl⟩
      | ok place =>
        simp only [Bool.false_eq_true, if_false, List.cons_append]
        cases found : versions[place]? with
        | none => exact Or.inl ⟨.tooNew place (versions.length - 1), rfl, rfl⟩
        | some current =>
          dsimp only
          cases valid : current.validate c with
          | error e =>
            refine Or.inl ⟨e, rfl, ?_⟩
            rw [Step.inTurn_check_error valid, Step.check, valid, ite_self]
          | ok _ =>
            refine Or.inr ⟨rfl, latest, rfl, Or.inr ⟨trivial, place, current, rfl, found, valid, ?_⟩⟩
            rw [Step.inTurn_check_ok valid, Step.check, valid]

/-- A database that is refused, or one that is at some version: all migrations behind it, then the comparison with
the latest one. -/
theorem prepare_cases {versions : List Version} (h : Orderly versions) (c : Catalogue) :
    (∃ e, prepare versions false c = (.error e, c)) ∨
      ∃ place current latest, readVersion c = .ok place ∧ versions[place]? = some current ∧
        current.validate c = .ok () ∧ versions.getLast? = some latest ∧
        prepare versions false c =
          Step.inTurn ((versions.drop (place + 1)).map Version.migrate ++
            [Step.check (Version.validate · latest)]) c := by
  rcases prepare_eq versions false c with
    ⟨e, -, refused⟩ | ⟨-, latest, last, ⟨isNew, -⟩ | ⟨-, place, current, named, found, valid, opened⟩⟩
  · exact Or.inl ⟨e, refused⟩
  · cases isNew
  · refine Or.inr ⟨place, current, latest, named, found, valid, last, opened.trans ?_⟩
    split
    · -- Nothing is left to be done, and both comparisons are the same.
      rename_i atLatest
      subst atLatest
      obtain ⟨here, nothingBehind⟩ := h.latest last
      obtain rfl : latest = current := Option.some.inj (here.symm.trans found)
      rw [nothingBehind, List.map_nil, List.nil_append, Step.inTurn_check_ok valid]
      rfl
    · rfl

/-- Opening a database that is there, when the versions are numbered by their places. If it succeeds, the database
was at a version that it agreed with, every migration behind that one has run once and in order, the database is at
the latest version and agrees with it, and opening it once more succeeds and changes nothing. Whether it succeeds or
not, the number in the database never goes down, and it only ever is that of a migration that has finished. -/
theorem opening_reaches_latest {versions : List Version} (h : Orderly versions) (c : Catalogue) :
    ((prepare versions false c).1 = .ok () →
      ∃ place current latest, readVersion c = .ok place ∧ versions[place]? = some current ∧
        current.validate c = .ok () ∧ versions.getLast? = some latest ∧
        Applied (versions.drop (place + 1)) c (prepare versions false c).2 ∧
        readVersion (prepare versions false c).2 = .ok latest.number ∧
        latest.validate (prepare versions false c).2 = .ok () ∧
        prepare versions false (prepare versions false c).2 = (.ok (), (prepare versions false c).2)) ∧
    c.version ≤ (prepare versions false c).2.version ∧
    ((prepare versions false c).2 = c ∨
      ∃ place done, Progress versions place done c (prepare versions false c).2) := by
  rcases prepare_cases h c with
    ⟨e, refused⟩ | ⟨place, current, latest, named, found, valid, last, opened⟩
  · rw [refused]
    exact ⟨nofun, Int.le_refl _, Or.inl rfl⟩
  rw [Step.inTurn_append] at opened
  rcases migrations_cases (versions.drop (place + 1)) c with
    ⟨c', all, result⟩ | ⟨done, v, rest, before, e, c', behind, some_, fails, result⟩
  · -- Every migration has finished; only the last comparison may fail.
    have opened : prepare versions false c = (latest.validate c', c') := by
      rw [opened, result]
      cases valid : latest.validate c' with
      | error e => exact Step.inTurn_check_error valid
      | ok _ => exact Step.inTurn_check_ok valid
    have progress := Progress.of_all h named all
    rw [opened]
    refine ⟨fun accepted => ?_, progress.version_le, Or.inr ⟨place, _, progress⟩⟩
    have atLatest : place + (versions.drop (place + 1)).length = latest.number := by
      rw [List.getLast?_eq_getElem?] at last
      obtain ⟨inside, -⟩ := List.getElem?_eq_some_iff.mp found
      rw [h.numbered _ _ last, List.length_drop]
      omega
    have number : readVersion c' = .ok latest.number := atLatest ▸ progress.number
    refine ⟨place, current, latest, named, found, valid, last, all, number, accepted, ?_⟩
    exact (prepare_of_latest h last number).trans (Prod.ext accepted rfl)
  · have progress := Progress.of_failure h named behind some_ fails
    rw [opened, result]
    exact ⟨nofun, progress.version_le, Or.inr ⟨place, done, progress⟩⟩

theorem opening_reaches_latest_from_first :
    Orderly taskVersions ∧ readVersion firstTaskDatabase = .ok 0 ∧
      Applied (taskVersions.drop 1) firstTaskDatabase (prepare taskVersions false firstTaskDatabase).2 ∧
      readVersion (prepare taskVersions false firstTaskDatabase).2 = .ok 1 := by
  have atFirst : readVersion firstTaskDatabase = .ok 0 := by decide +kernel
  have succeeds : (prepare taskVersions false firstTaskDatabase).1 = .ok () := by decide +kernel
  obtain ⟨place, current, latest, named, -, -, last, applied, number, -, -⟩ :=
    (opening_reaches_latest taskVersions_orderly firstTaskDatabase).1 succeeds
  obtain rfl : 0 = place := Except.ok.inj (atFirst.symm.trans named)
  obtain rfl := Option.some.inj last
  exact ⟨taskVersions_orderly, atFirst, applied, number⟩

end Courier.Schema
