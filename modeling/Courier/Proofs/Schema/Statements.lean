/-
# Courier.Proofs.Schema.Statements -- what statements add to a database

A table or an index that is created goes behind those that are already there, and a statement that is refused does
nothing. So whatever is made of a database by statements one after the other, cut off by a refusal or not, has
everything in its place that was there before (`Catalogue.Extends`), and what can be looked up stays as it was found.
-/
import Courier.Schema.Open
import Mathlib.Data.List.Basic
import Mathlib.Data.Option.Basic

namespace Courier

/-! ## More behind the same -/

namespace Catalogue

/-- A catalogue that may have more tables and indices, behind those of another one. -/
structure Extends (c c' : Catalogue) : Prop where
  tables : c.tables <+: c'.tables
  indices : c.indices <+: c'.indices

namespace Extends

variable {c c' c'' : Catalogue}

theorem refl (c : Catalogue) : Extends c c := ⟨List.prefix_rfl, List.prefix_rfl⟩

theorem trans (h : Extends c c') (h' : Extends c' c'') : Extends c c'' :=
  ⟨h.tables.trans h'.tables, h.indices.trans h'.indices⟩

/-- A table that is found stays the first one of its name. -/
theorem table? (h : Extends c c') {name : String} {t : Table} (found : c.table? name = some t) :
    c'.table? name = some t := by
  obtain ⟨more, tables⟩ := h.tables
  unfold Catalogue.table? at *
  rw [← tables, List.find?_append, found, Option.some_or]

theorem hasIndex (h : Extends c c') {name table : String} (found : c.hasIndex name table = true) :
    c'.hasIndex name table = true := by
  obtain ⟨more, indices⟩ := h.indices
  unfold Catalogue.hasIndex at *
  rw [← indices, List.any_append, found, Bool.true_or]

theorem isTaken (h : Extends c c') {name : String} (taken : c.isTaken name = true) : c'.isTaken name = true := by
  obtain ⟨moreTables, tables⟩ := h.tables
  obtain ⟨moreIndices, indices⟩ := h.indices
  unfold Catalogue.isTaken at *
  rw [← tables, ← indices, List.any_append, List.any_append]
  rw [Bool.or_eq_true] at taken
  rcases taken with taken | taken <;> simp [taken]

end Extends

/-! ## Statements that are carried out -/

variable {c c' : Catalogue}

theorem createTable?_eq_some {d : TableDeclaration} (h : c.createTable? d = some c') :
    isPlainName d.name = true ∧ c.isTaken d.name = false ∧
      ∃ columns, c.reportedColumns? d = some columns ∧
        c' = { c with tables := c.tables ++ [{ name := d.name, columns }] } := by
  obtain ⟨_, named, h⟩ := Option.bind_eq_some_iff.mp h
  obtain ⟨-, -, h⟩ := Option.bind_eq_some_iff.mp h
  obtain ⟨-, -, h⟩ := Option.bind_eq_some_iff.mp h
  obtain ⟨-, -, h⟩ := Option.bind_eq_some_iff.mp h
  obtain ⟨columns, reported, h⟩ := Option.bind_eq_some_iff.mp h
  cases h
  rw [Option.guard_eq_some'] at named
  simp only [Bool.and_eq_true, Bool.not_eq_true'] at named
  exact ⟨named.1.1, named.1.2, columns, reported, rfl⟩

theorem createTable?_of_taken {d : TableDeclaration} (taken : c.isTaken d.name = true) : c.createTable? d = none := by
  cases h : c.createTable? d with
  | none => rfl
  | some c' => exact absurd (createTable?_eq_some h).2.1 (by simp [taken])

theorem createIndex?_eq_some {name table terms : String} (h : c.createIndex? name table terms = some c') :
    ∃ t, c.table? table = some t ∧ c' = { c with indices := c.indices ++ [⟨name, t.name⟩] } := by
  obtain ⟨t, found, h⟩ := Option.bind_eq_some_iff.mp h
  obtain ⟨-, -, h⟩ := Option.bind_eq_some_iff.mp h
  obtain ⟨-, -, h⟩ := Option.bind_eq_some_iff.mp h
  obtain ⟨wanted, -, h⟩ := Option.bind_eq_some_iff.mp h
  obtain ⟨-, -, h⟩ := Option.bind_eq_some_iff.mp h
  cases h
  exact ⟨t, found, rfl⟩

theorem setVersion?_eq_some {version : Nat} (h : c.setVersion? version = some c') : c' = c.setVersion version := by
  unfold setVersion? at h
  split at h
  · cases h
  · exact (Option.some.inj h).symm

/-- How many tables and indices there are. -/
def count (c : Catalogue) : Nat := c.tables.length + c.indices.length

/-- One table or one index more than before, behind the others. -/
structure OneMore (c c' : Catalogue) : Prop where
  behind : Extends c c'
  version : c'.version = c.version
  count : c'.count = c.count + 1

theorem oneMore_createTable? {d : TableDeclaration} (h : c.createTable? d = some c') : OneMore c c' := by
  obtain ⟨-, -, columns, -, rfl⟩ := createTable?_eq_some h
  refine ⟨⟨List.prefix_append _ _, List.prefix_rfl⟩, rfl, ?_⟩
  simp only [count, List.length_append, List.length_singleton]
  omega

theorem oneMore_createIndex? {name table terms : String} (h : c.createIndex? name table terms = some c') :
    OneMore c c' := by
  obtain ⟨t, -, rfl⟩ := createIndex?_eq_some h
  refine ⟨⟨List.prefix_rfl, List.prefix_append _ _⟩, rfl, ?_⟩
  simp only [count, List.length_append, List.length_singleton]
  omega

/-- A table that has just been created is the one that is found under its name. -/
theorem table?_createTable? {d : TableDeclaration} (h : c.createTable? d = some c') :
    ∃ columns, c.reportedColumns? d = some columns ∧
      c'.table? d.name = some { name := d.name, columns } := by
  obtain ⟨-, free, columns, reported, rfl⟩ := createTable?_eq_some h
  refine ⟨columns, reported, ?_⟩
  rw [isTaken, Bool.or_eq_false_iff, List.any_eq_false] at free
  have absent : c.tables.find? (fun t => sameName t.name d.name) = none := List.find?_eq_none.mpr free.1
  have same : sameName d.name d.name = true := beq_self_eq_true _
  simp only [table?, List.find?_append, absent, Option.none_or, List.find?_cons, same]

theorem isTaken_of_table? {name : String} {t : Table} (found : c.table? name = some t) : c.isTaken name = true := by
  have same := List.find?_some found
  rw [isTaken, List.any_eq_true.mpr ⟨t, List.mem_of_find?_eq_some found, same⟩, Bool.true_or]

/-- An index that has just been created is on the table that was named. -/
theorem hasIndex_createIndex? {name table terms : String} {t : Table} (found : c.table? table = some t)
    (h : c.createIndex? name table terms = some c') : c'.hasIndex name t.name = true := by
  obtain ⟨t', found', rfl⟩ := createIndex?_eq_some h
  obtain rfl : t = t' := Option.some.inj (found.symm.trans found')
  simp [hasIndex]

end Catalogue

namespace Schema

/-! ## Steps that only add -/

/-- A step after which everything is still in its place, whether it succeeds or not. -/
def Step.Adds (step : Step) : Prop := ∀ c, Catalogue.Extends c (step c).2

namespace Step

theorem Adds.extends {step : Step} (h : step.Adds) {c c' : Catalogue} {result : Except Error Unit}
    (done : step c = (result, c')) : Catalogue.Extends c c' := by
  have added := h c
  rwa [done] at added

theorem inTurn_cons (step : Step) (rest : List Step) (c : Catalogue) :
    inTurn (step :: rest) c =
      match step c with
      | (.ok (), c) => inTurn rest c
      | (.error e, c) => (.error e, c) := rfl

theorem inTurn_append (steps rest : List Step) (c : Catalogue) :
    inTurn (steps ++ rest) c =
      match inTurn steps c with
      | (.ok (), c) => inTurn rest c
      | (.error e, c) => (.error e, c) := by
  induction steps generalizing c with
  | nil => rfl
  | cons step steps ih =>
    rw [List.cons_append, inTurn_cons, inTurn_cons]
    obtain ⟨result, c'⟩ := step c
    cases result with
    | error e => rfl
    | ok _ => exact ih c'

/-- Steps in turn succeed if the first one does and then the others do. -/
theorem inTurn_append_ok {steps rest : List Step} {c c' : Catalogue}
    (h : inTurn (steps ++ rest) c = (.ok (), c')) :
    ∃ b, inTurn steps c = (.ok (), b) ∧ inTurn rest b = (.ok (), c') := by
  rw [inTurn_append] at h
  cases first : inTurn steps c with
  | mk result b =>
    rw [first] at h
    cases result with
    | error e => cases h
    | ok _ => exact ⟨b, rfl, h⟩

theorem inTurn_cons_ok {step : Step} {rest : List Step} {c c' : Catalogue}
    (h : inTurn (step :: rest) c = (.ok (), c')) :
    ∃ b, step c = (.ok (), b) ∧ inTurn rest b = (.ok (), c') := by
  rw [inTurn_cons] at h
  cases first : step c with
  | mk result b =>
    rw [first] at h
    cases result with
    | error e => cases h
    | ok _ => exact ⟨b, rfl, h⟩

/-- What holds between the database before and after every step holds between the one before and after all of them. -/
theorem inTurn_induction {r : Catalogue → Catalogue → Prop} (refl : ∀ c, r c c)
    (trans : ∀ {a b c}, r a b → r b c → r a c) {steps : List Step} (h : ∀ step ∈ steps, ∀ c, r c (step c).2)
    (c : Catalogue) : r c (inTurn steps c).2 := by
  induction steps generalizing c with
  | nil => exact refl c
  | cons step rest ih =>
    have first := h step List.mem_cons_self c
    rw [inTurn_cons]
    cases done : step c with
    | mk result b =>
      rw [done] at first
      cases result with
      | error e => exact first
      | ok _ => exact trans first (ih (fun step hs => h step (List.mem_cons_of_mem _ hs)) b)

theorem statement_eq_ok {f : Catalogue → Option Catalogue} {e : Error} {c c' : Catalogue} :
    statement f e c = (.ok (), c') ↔ f c = some c' := by
  unfold statement
  cases f c <;> simp

theorem statement_eq_error {f : Catalogue → Option Catalogue} {e e' : Error} {c c' : Catalogue} :
    statement f e c = (.error e', c') ↔ f c = none ∧ e = e' ∧ c = c' := by
  unfold statement
  cases f c <;> simp

theorem adds_inTurn {steps : List Step} (h : ∀ step ∈ steps, step.Adds) : (inTurn steps).Adds :=
  inTurn_induction .refl .trans h

/-- A statement that creates something: carried out, it has put one table or one index behind the others; refused, it
has done nothing. -/
def Creates (step : Step) : Prop := ∀ c, match step c with
  | (.ok _, c') => Catalogue.OneMore c c'
  | (.error _, c') => c' = c

theorem creates_statement {f : Catalogue → Option Catalogue} {e : Error}
    (h : ∀ c c', f c = some c' → Catalogue.OneMore c c') : (statement f e).Creates := by
  intro c
  unfold statement
  cases carriedOut : f c with
  | none => rfl
  | some c' => exact h c c' carriedOut

theorem Creates.of_ok {step : Step} (h : step.Creates) {c c' : Catalogue} (carriedOut : step c = (.ok (), c')) :
    Catalogue.OneMore c c' := by
  have created := h c
  rwa [carriedOut] at created

theorem Creates.of_error {step : Step} (h : step.Creates) {c c' : Catalogue} {e : Error}
    (refused : step c = (.error e, c')) : c' = c := by
  have alone := h c
  rwa [refused] at alone

/-- What one more table or index keeps is kept by a statement that creates, whether it is carried out or not. -/
theorem Creates.induction {step : Step} (h : step.Creates) {r : Catalogue → Catalogue → Prop} (refl : ∀ c, r c c)
    (more : ∀ c c', Catalogue.OneMore c c' → r c c') (c : Catalogue) : r c (step c).2 := by
  cases done : step c with
  | mk result c' =>
    cases result with
    | ok _ => exact more c c' (h.of_ok done)
    | error e =>
      rw [h.of_error done]
      exact refl c

theorem Creates.adds {step : Step} (h : step.Creates) : step.Adds := h.induction .refl fun _ _ more => more.behind

end Step

/-- A number is written, or it is refused and nothing changes. -/
theorem setVersion_cases (number : Nat) (c : Catalogue) :
    setVersion number c = (.ok (), c.setVersion (base + number)) ∨ setVersion number c = (.error .database, c) := by
  cases written : c.setVersion? (base + number) with
  | none => exact .inr (Step.statement_eq_error.mpr ⟨written, rfl, rfl⟩)
  | some c' =>
    obtain rfl := Catalogue.setVersion?_eq_some written
    exact .inl (Step.statement_eq_ok.mpr written)

theorem extends_setVersion (c : Catalogue) (version : Nat) : Catalogue.Extends c (c.setVersion version) :=
  ⟨List.prefix_rfl, List.prefix_rfl⟩

/-- The statement that creates an index. -/
def indexStatement (table : String) (index : String × String) : Step :=
  .statement (·.createIndex? index.1 table index.2) .database

/-- The statements that create a table. -/
def Table.statements (t : Table) : List Step :=
  .statement (·.createTable? t.declaration) (.tableRefused t.name) :: t.indices.map (indexStatement t.name)

theorem creates_indexStatement (table : String) (index : String × String) : (indexStatement table index).Creates :=
  Step.creates_statement fun _ _ => Catalogue.oneMore_createIndex?

theorem Table.creates_statements (t : Table) : ∀ statement ∈ t.statements, statement.Creates := by
  intro statement hs
  rcases List.mem_cons.mp hs with rfl | hs
  · exact Step.creates_statement fun _ _ => Catalogue.oneMore_createTable?
  · obtain ⟨index, -, rfl⟩ := List.mem_map.mp hs
    exact creates_indexStatement t.name index

theorem adds_indices (table : String) (indices : List (String × String)) :
    (Step.inTurn (indices.map (indexStatement table))).Adds := by
  refine Step.adds_inTurn fun step hs => ?_
  obtain ⟨index, -, rfl⟩ := List.mem_map.mp hs
  exact (creates_indexStatement table index).adds

theorem Table.adds_create (t : Table) : t.create.Adds :=
  Step.adds_inTurn fun statement hs => (t.creates_statements statement hs).adds

theorem adds_tables (tables : List Table) : (Step.inTurn (tables.map Table.create)).Adds := by
  refine Step.adds_inTurn fun step hs => ?_
  obtain ⟨t, -, rfl⟩ := List.mem_map.mp hs
  exact t.adds_create

end Schema

end Courier
