/-
# Courier.Proofs.Schema.Creation -- a version that has been created, compared with itself

Creating a version writes every definition as a statement, comparing it reads back what the database reports. The
two agree on names, types, keys and on what is required. Of a default, though, the database reports the text without
one pair of parentheses and without the blanks around it, and the comparison takes another pair off both sides. So
the text comes back as it was only if there is at most one pair and no blank to be lost (`Settled`).

`created_validates_iff` says that this, and a number that fits, is all that it takes for a version that has been
created to be accepted and opened again. Which defaults a database takes at all does not matter for it: the report of
a default is the same function of its text whatever else the database takes (`Catalogue.moreDefaults`).
-/
import Courier.Proofs.Schema.Migration
import Courier.Proofs.Schema.Validation
import Mathlib.Data.List.DropRight

namespace Courier

/-! ## Defaults as they are reported -/

namespace Catalogue.Default

/-- A default without blanks at its ends, with at most one pair of parentheses around it, and without blanks just
inside these. -/
structure Settled (cs : List Char) : Prop where
  bare : trimmed cs = cs
  single : ∀ inner, cs = '(' :: inner ++ [')'] → trimmed inner = inner ∧ unwrapped inner = inner

theorem unwrapped_wrapped (inner : List Char) : unwrapped ('(' :: inner ++ [')']) = inner := by
  simp [unwrapped]

theorem length_unwrapped_le (cs : List Char) : (unwrapped cs).length ≤ cs.length := by
  rcases unwrapped_eq_or cs with bare | wrapped
  · exact (congrArg List.length bare).le
  · have longer := congrArg List.length wrapped
    simp only [List.length_append, List.length_cons, List.length_nil] at longer
    omega

theorem trimmed_eq_rdropWhile (cs : List Char) : trimmed cs = (cs.dropWhile isBlank).rdropWhile isBlank := rfl

theorem trimmed_starts (cs : List Char) : trimmed cs <+: cs.dropWhile isBlank :=
  List.rdropWhile_prefix isBlank _

theorem trimmed_sublist (cs : List Char) : (trimmed cs).Sublist cs :=
  (trimmed_starts cs).sublist.trans (List.dropWhile_sublist isBlank)

/-- Nothing is lost at ends that are no blanks. -/
theorem trimmed_eq_self {cs : List Char} (front : ∀ c ∈ cs.head?, isBlank c = false)
    (back : ∀ c ∈ cs.getLast?, isBlank c = false) : trimmed cs = cs := by
  have kept : cs.dropWhile isBlank = cs := by
    cases cs with
    | nil => rfl
    | cons c rest => exact List.dropWhile_cons_of_neg (by simp [front c rfl])
  rw [trimmed_eq_rdropWhile, kept, List.rdropWhile_eq_self_iff]
  intro some_ blank
  exact absurd blank (by simp [back _ (List.getLast?_eq_some_getLast some_)])

theorem trimmed_wrapped (inner : List Char) : trimmed ('(' :: inner ++ [')']) = '(' :: inner ++ [')'] := by
  refine trimmed_eq_self (fun c h => ?_) fun c h => ?_
  · obtain rfl := Option.some.inj h
    rfl
  · rw [List.getLast?_concat] at h
    obtain rfl := Option.some.inj h
    rfl

/-- What a text starts with when its blanks are gone is what it starts with behind them. -/
theorem dropWhile_of_trimmed {cs rest : List Char} {c : Char} (h : trimmed cs = c :: rest) :
    ∃ more, cs.dropWhile isBlank = c :: more := by
  obtain ⟨back, whole⟩ := trimmed_starts cs
  rw [h] at whole
  exact ⟨rest ++ back, whole.symm⟩

theorem trimmed_trimmed (cs : List Char) : trimmed (trimmed cs) = trimmed cs := by
  have front : (trimmed cs).dropWhile isBlank = trimmed cs := by
    cases kept : trimmed cs with
    | nil => rfl
    | cons c rest =>
      obtain ⟨more, first⟩ := dropWhile_of_trimmed kept
      have shown : isBlank c = false := by simpa [first] using List.head?_dropWhile_not isBlank cs
      exact List.dropWhile_cons_of_neg (by simp [shown])
  rw [trimmed_eq_rdropWhile (trimmed cs), front, trimmed_eq_rdropWhile, List.rdropWhile_idempotent]

/-- A parenthesis in front of a text is its first token. -/
theorem opened_of_trimmed {cs inner : List Char} {ts : List Token} (read : tokens? cs = some ts)
    (h : trimmed cs = '(' :: inner) : ts.head? = some .opened := by
  obtain ⟨more, first⟩ := dropWhile_of_trimmed h
  cases cs with
  | nil => cases first
  | cons c rest =>
    rw [tokens?, List.length_cons, tokens?.go, first] at read
    obtain ⟨_, token, read⟩ := Option.bind_eq_some_iff.mp read
    obtain ⟨others, -, read⟩ := Option.bind_eq_some_iff.mp read
    cases token
    cases read
    rfl

/-- The report of a default, whatever its form. -/
theorem reported?_eq_some {text r : String} (h : reported? text = some r) : r = report text := by
  obtain ⟨ts, read, h⟩ := Option.bind_eq_some_iff.mp h
  split at h
  · cases h
    split
    · rfl
    · rename_i unopened
      -- No parenthesis is in front, so there is nothing to be taken off.
      rcases unwrapped_eq_or (trimmed text.toList) with bare | wrapped
      · rw [report, bare, trimmed_trimmed]
      · exact absurd (opened_of_trimmed read wrapped) unopened
  · cases h

/-- A default comes back from its report, a pair of parentheses apart, if and only if it is settled. -/
theorem unwrapped_reported_iff (cs : List Char) :
    unwrapped (trimmed (unwrapped (trimmed cs))) = unwrapped cs ↔ Settled cs := by
  constructor
  · intro same
    rcases unwrapped_eq_or cs with bare | wrapped
    · -- Nothing is taken off the text, so nothing may have been taken off on the way.
      have whole := congrArg List.length (same.trans bare)
      have last := length_unwrapped_le (trimmed (unwrapped (trimmed cs)))
      have trims := (trimmed_sublist (unwrapped (trimmed cs))).length_le
      have first := length_unwrapped_le (trimmed cs)
      have kept : trimmed cs = cs := (trimmed_sublist cs).eq_of_length_le (by omega)
      refine ⟨kept, fun inner wrapped => ?_⟩
      rw [wrapped, unwrapped_wrapped] at bare
      have longer := congrArg List.length bare
      simp only [List.length_append, List.length_cons, List.length_nil] at longer
      omega
    · generalize unwrapped cs = inner at same wrapped
      subst wrapped
      rw [trimmed_wrapped, unwrapped_wrapped] at same
      have last := length_unwrapped_le (trimmed inner)
      rw [same] at last
      have kept : trimmed inner = inner := (trimmed_sublist inner).eq_of_length_le last
      rw [kept] at same
      refine ⟨trimmed_wrapped inner, fun inner' h => ?_⟩
      obtain rfl : inner = inner' := by simpa using h
      exact ⟨kept, same⟩
  · intro settled
    rw [settled.bare]
    rcases unwrapped_eq_or cs with bare | wrapped
    · rw [bare, settled.bare, bare]
    · obtain ⟨kept, single⟩ := settled.single _ wrapped
      rw [kept, single]

instance (cs : List Char) : Decidable (Settled cs) := decidable_of_iff _ (unwrapped_reported_iff cs)

end Catalogue.Default

/-- What a database reports of a default does not depend on why it takes it. -/
theorem Catalogue.reportedDefault?_eq_some {c : Catalogue} {text r : String} (h : c.reportedDefault? text = some r) :
    r = Default.report text := by
  unfold reportedDefault? at h
  split at h
  · exact (Option.some.inj h).symm
  · exact Default.reported?_eq_some h

namespace Schema

/-! ## Columns as they are reported -/

/-- The default of a column, if there is one, comes back as it was. -/
def Column.Settled (col : Column) : Prop := ∀ text ∈ col.default?, Catalogue.Default.Settled text.toList

instance (col : Column) : Decidable col.Settled :=
  inferInstanceAs (Decidable (∀ text ∈ col.default?, Catalogue.Default.Settled text.toList))

/-- What the database reports of a column that was declared from its definition. -/
structure Reports (found : Catalogue.Column) (col : Column) : Prop where
  name : found.name = col.name
  type : found.type = col.type.name
  required : found.required = col.required
  key : found.keyPosition = if col.isKey then 1 else 0
  default? : found.default? = col.default?.map Catalogue.Default.report
  shown : found.isHidden = false

theorem ColumnType.reportedType_name (t : ColumnType) : Catalogue.reportedType t.name = t.name := by
  cases t <;> decide

/-- A list that is mapped as a whole is mapped element by element. -/
theorem forall₂_of_mapM {α β : Type} {f : α → Option β} {xs : List α} {ys : List β} (h : xs.mapM f = some ys) :
    List.Forall₂ (fun x y => f x = some y) xs ys := by
  induction xs generalizing ys with
  | nil =>
    cases h
    exact .nil
  | cons x xs ih =>
    rw [List.mapM_cons] at h
    obtain ⟨y, first, h⟩ := Option.bind_eq_some_iff.mp h
    obtain ⟨rest, others, h⟩ := Option.bind_eq_some_iff.mp h
    cases h
    exact .cons first (ih others)

theorem reports_of_reportedColumns? {t : Table} {c : Catalogue} {found : List Catalogue.Column}
    (h : c.reportedColumns? t.declaration = some found) : List.Forall₂ Reports found t.columns := by
  refine ((List.forall₂_map_left_iff.mp (forall₂_of_mapM h)).imp fun col r reported => ?_).flip
  have type := col.type.reportedType_name
  cases default : col.default? with
  | none =>
    simp only [Column.declaration, default] at reported
    cases reported
    exact ⟨rfl, type, rfl, rfl, by rw [default]; rfl, rfl⟩
  | some text =>
    simp only [Column.declaration, default] at reported
    obtain ⟨_, known, reported⟩ := Option.bind_eq_some_iff.mp reported
    obtain ⟨r, report, rfl⟩ := Option.map_eq_some_iff.mp known
    cases reported
    exact ⟨rfl, type, rfl, rfl, by rw [default, Catalogue.reportedDefault?_eq_some report]; rfl, rfl⟩

theorem Reports.agrees_iff {found : Catalogue.Column} {col : Column} (h : Reports found col) :
    Agrees found col ↔ col.Settled := by
  have key : col.isKey = true ↔ found.keyPosition = 1 := by
    rw [h.key]
    cases col.isKey <;> simp
  have default : found.default?.map unwrapped = col.default?.map unwrapped ↔ col.Settled := by
    rw [h.default?]
    unfold Column.Settled
    cases col.default? with
    | none => exact iff_of_true rfl nofun
    | some text =>
      simp only [Option.map_some, Option.some.injEq, Option.mem_some_iff, forall_eq', unwrapped,
        String.ofList_inj, Catalogue.Default.report, String.toList_ofList]
      exact Catalogue.Default.unwrapped_reported_iff text.toList
  exact ⟨fun agrees => default.mp agrees.default?,
    fun settled => ⟨h.name, h.type, h.required, key, default.mpr settled⟩⟩

theorem agree_iff_of_reports {found : List Catalogue.Column} {columns : List Column}
    (h : List.Forall₂ Reports found columns) : List.Forall₂ Agrees found columns ↔ ∀ col ∈ columns, col.Settled := by
  induction h with
  | nil => exact iff_of_true .nil nofun
  | cons first _ ih => rw [List.forall₂_cons, List.forall_mem_cons, first.agrees_iff, ih]

/-! ## Tables as they are created -/

/-- What creating a table has made, if it was carried out to its end: the table with its columns as they are
reported, and every index on it. -/
structure Created (t : Table) (c : Catalogue) : Prop where
  plain : Catalogue.isPlainName t.name = true
  there : ∃ columns, c.table? t.name = some { name := t.name, columns } ∧ List.Forall₂ Reports columns t.columns
  indices : ∀ index ∈ t.indices, c.hasIndex index.1 t.name = true

theorem Created.mono {t : Table} {c c' : Catalogue} (h : Created t c) (more : Catalogue.Extends c c') :
    Created t c' := by
  obtain ⟨columns, there, reported⟩ := h.there
  exact ⟨h.plain, ⟨columns, more.table? there, reported⟩, fun index listed => more.hasIndex (h.indices index listed)⟩

/-- A table as it was created is accepted if and only if its defaults come back. -/
theorem Created.validate_iff {t : Table} {c : Catalogue} (h : Created t c) :
    t.validate c = .ok () ↔ ∀ col ∈ t.columns, col.Settled := by
  obtain ⟨columns, there, reported⟩ := h.there
  have shown : ∀ col ∈ columns, col.isHidden = false :=
    ((List.forall₂_and_left _ _).mp (reported.imp fun _ _ reports => ⟨reports.shown, reports⟩)).1
  have found : c.columns t.name = columns := by
    simp only [Catalogue.columns, there]
    exact (reported_eq_iff _).mpr shown
  rw [validate_eq_ok_iff, found, and_iff_right h.plain, and_iff_left h.indices]
  exact agree_iff_of_reports reported

theorem hasIndex_of_created {table : String} {t : Catalogue.Table} {indices : List (String × String)}
    {c c' : Catalogue} (found : c.table? table = some t)
    (h : Step.inTurn (indices.map (indexStatement table)) c = (.ok (), c')) :
    ∀ index ∈ indices, c'.hasIndex index.1 t.name = true := by
  induction indices generalizing c with
  | nil => exact nofun
  | cons index rest ih =>
    obtain ⟨b, first, others⟩ := Step.inTurn_cons_ok h
    rw [indexStatement, Step.statement_eq_ok] at first
    have there := Catalogue.hasIndex_createIndex? found first
    have found := (Catalogue.oneMore_createIndex? first).behind.table? found
    exact List.forall_mem_cons.mpr ⟨((adds_indices table rest).extends others).hasIndex there, ih found others⟩

theorem created_of_create {t : Table} {c c' : Catalogue} (h : t.create c = (.ok (), c')) : Created t c' := by
  obtain ⟨b, first, others⟩ := Step.inTurn_cons_ok h
  rw [Step.statement_eq_ok] at first
  have more := (adds_indices t.name t.indices).extends others
  obtain ⟨columns, reported, there⟩ := Catalogue.table?_createTable? first
  exact ⟨(Catalogue.createTable?_eq_some first).1,
    ⟨columns, more.table? there, reports_of_reportedColumns? reported⟩, hasIndex_of_created there others⟩

theorem created_of_createAll {tables : List Table} {c c' : Catalogue}
    (h : Step.inTurn (tables.map Table.create) c = (.ok (), c')) : ∀ t ∈ tables, Created t c' := by
  induction tables generalizing c with
  | nil => exact nofun
  | cons t rest ih =>
    obtain ⟨b, first, others⟩ := Step.inTurn_cons_ok h
    have more := (adds_tables rest).extends others
    exact List.forall_mem_cons.mpr ⟨(created_of_create first).mono more, ih others⟩

/-! ## Versions as they are created -/

theorem validateAll_eq_ok (c : Catalogue) (tables : List Table) :
    validateAll c tables = .ok () ↔ ∀ t ∈ tables, t.validate c = .ok () := by
  induction tables with
  | nil => exact iff_of_true rfl nofun
  | cons t rest ih => rw [validateAll, andThen_eq_ok, ih, List.forall_mem_cons]

/-- The defaults of all tables come back. -/
def Version.Settled (v : Version) : Prop := ∀ t ∈ v.tables, ∀ col ∈ t.columns, col.Settled

instance (v : Version) : Decidable v.Settled :=
  inferInstanceAs (Decidable (∀ t ∈ v.tables, ∀ col ∈ t.columns, col.Settled))

theorem Version.create_eq_ok {v : Version} {c c' : Catalogue} (h : v.create c = (.ok (), c')) :
    (∀ t ∈ v.tables, Created t c') ∧
      c'.version = if base + v.number ≤ Catalogue.maxVersion then ((base + v.number : Nat) : Int) else 0 := by
  obtain ⟨b, tables, last⟩ := Step.inTurn_append_ok h
  obtain ⟨d, numbered, nothing⟩ := Step.inTurn_cons_ok last
  cases nothing
  rcases setVersion_cases v.number b with written | refused
  · obtain ⟨-, rfl⟩ := Prod.mk.inj (numbered.symm.trans written)
    exact ⟨fun t ht => (created_of_createAll tables t ht).mono (extends_setVersion b _), rfl⟩
  · cases numbered.symm.trans refused

theorem Version.validate_iff {v : Version} {c : Catalogue} (h : ∀ t ∈ v.tables, Created t c) :
    v.validate c = .ok () ↔ v.Settled := by
  unfold Version.validate Version.Settled
  rw [validateAll_eq_ok]
  exact forall₂_congr fun t ht => (h t ht).validate_iff

/-- A version whose creation was carried out to its end. It agrees with what it has made if and only if its defaults
come back, and its number can be read back if and only if it fits; so as the latest one of its list it can be opened
again if and only if both are so. -/
theorem created_validates_iff {v : Version} {c c' : Catalogue} (created : v.create c = (.ok (), c')) :
    (v.validate c' = .ok () ↔ v.Settled) ∧
      (readVersion c' = .ok v.number ↔ base + v.number ≤ Catalogue.maxVersion) ∧
      ∀ versions : List Version, versions[v.number]? = some v → versions.getLast? = some v →
        (prepare versions false c' = (.ok (), c') ↔ v.Settled ∧ base + v.number ≤ Catalogue.maxVersion) := by
  obtain ⟨tables, numbered⟩ := Version.create_eq_ok created
  have valid : v.validate c' = .ok () ↔ v.Settled := Version.validate_iff tables
  have named : readVersion c' = .ok v.number ↔ base + v.number ≤ Catalogue.maxVersion := by
    rw [readVersion_eq_ok, numbered]
    split
    · exact iff_of_true rfl ‹_›
    · refine iff_of_false (fun zero => ?_) ‹_›
      have : 0 < base := by decide
      omega
  refine ⟨valid, named, fun versions place last => ?_⟩
  by_cases fits : base + v.number ≤ Catalogue.maxVersion
  · simp only [prepare, last, named.mpr fits, place, Step.check, if_true, Bool.false_eq_true, if_false,
      Prod.mk.injEq, and_true, valid, fits]
  · refine iff_of_false (fun opened => ?_) fun h => fits h.2
    -- A number that does not fit was written as zero, so the database is not known as one of the program's.
    have zero : c'.version = 0 := numbered.trans (if_neg fits)
    have foreign : readVersion c' = .error (.foreignVersion 0) := by
      rw [readVersion, zero]
      rfl
    simp only [prepare, last, foreign, Bool.false_eq_true, if_false, Prod.mk.injEq, reduceCtorEq, false_and] at opened

/-- The latest version of the task database. -/
def latestTaskVersion : Version :=
  { number := 1, tables := [taskTable, eventTable], migration := some eventTable.create }

theorem created_validates_task_database :
    let c := (latestTaskVersion.create {}).2
    latestTaskVersion.create {} = (.ok (), c) ∧ latestTaskVersion.validate c = .ok () ∧ readVersion c = .ok 1 ∧
      prepare taskVersions false c = (.ok (), c) := by
  have created : latestTaskVersion.create {} = (.ok (), (latestTaskVersion.create {}).2) :=
    Prod.ext (by decide +kernel) rfl
  have settled : latestTaskVersion.Settled := by decide +kernel
  have fits : base + latestTaskVersion.number ≤ Catalogue.maxVersion := by decide
  obtain ⟨valid, named, opened⟩ := created_validates_iff created
  exact ⟨created, valid.mpr settled, named.mpr fits, (opened taskVersions rfl rfl).mpr ⟨settled, fits⟩⟩

/-- A version with one column, whose default stands between two pairs of parentheses. -/
def doublyWrapped : Version :=
  { number := 0, tables := [{ name := "t", columns := [{ name := "a", type := .integer, default? := some "((1))" }] }] }

/-- The database takes one pair off the default, the comparison takes the other one. -/
theorem doubly_wrapped_default_refused :
    let c := (doublyWrapped.create {}).2
    (doublyWrapped.create {}).1 = .ok () ∧
      c.columns "t" =
        [{ name := "a", type := "INTEGER", required := false, default? := some "(1)", keyPosition := 0 }] ∧
      doublyWrapped.validate c = .error (.columnDefault "t" "a" (some "((1))") (some "(1)")) := by
  decide +kernel

end Schema

end Courier
