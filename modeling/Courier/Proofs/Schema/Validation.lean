/-
# Courier.Proofs.Schema.Validation -- what it means that a table has been compared

A table in a database is compared with its definition through what the database reports of it: one row for each
column, with the name, the type, the default as a text, and a position in the primary key. `validate_eq_ok_iff`
says exactly which tables are accepted; they agree with their definition column by column (`Agrees`).

The comparison takes a column for the key if its position is one. That is right for a key of one column only: in a
composite key the other columns have positions of their own, which nothing looks at. Nor does it look behind the
report, which leaves hidden columns out and is given of a view too. So what is accepted is the defined table if and
only if it is a table, no column of it is hidden, and none stands at a later position in the key
(`accepted_table_exact_iff`).
-/
import Courier.Schema.Tasks
import Mathlib.Data.List.Forall2

namespace Courier.Catalogue.Default

/-- Either nothing is taken off, or a pair of parentheses is. -/
theorem unwrapped_eq_or (cs : List Char) : unwrapped cs = cs ∨ cs = '(' :: unwrapped cs ++ [')'] := by
  unfold unwrapped
  split
  · split
    · rename_i closed
      obtain ⟨front, rfl⟩ := List.getLast?_eq_some_iff.mp closed
      exact .inr (by simp)
    · exact .inl rfl
  · exact .inl rfl

end Courier.Catalogue.Default

namespace Courier.Schema

/-! ## Columns in pairs -/

/-- A reported column is the defined one, as far as the comparison goes. -/
structure Agrees (found : Catalogue.Column) (expected : Column) : Prop where
  name : found.name = expected.name
  type : found.type = expected.type.name
  required : found.required = expected.required
  /-- The column is marked as the key if it comes first in the key. -/
  key : expected.isKey = true ↔ found.keyPosition = 1
  default? : found.default?.map unwrapped = expected.default?.map unwrapped

theorem ColumnType.ofName?_eq_some {s : String} {t : ColumnType} : ofName? s = some t ↔ s = t.name := by
  constructor
  · intro h
    unfold ofName? at h
    have named := List.find?_some h
    exact (beq_iff_eq.mp named).symm
  · rintro rfl
    exact ofName?_name t

theorem andThen_eq_ok {x y : Except Error Unit} : (do x; y) = .ok () ↔ x = .ok () ∧ y = .ok () := by
  cases x with
  | error e => exact iff_of_false nofun fun h => nomatch h.1
  | ok _ => exact (and_iff_right rfl).symm

theorem Column.check_eq_ok {table : String} {found : Catalogue.Column} {type : ColumnType} {expected : Column} :
    expected.check table found type = .ok () ↔
      found.name = expected.name ∧ type = expected.type ∧ found.required = expected.required ∧
        (expected.isKey = true ↔ found.keyPosition = 1) ∧
        found.default?.map unwrapped = expected.default?.map unwrapped := by
  have key : (expected.isKey = true ↔ found.keyPosition = 1) ↔
      decide (found.keyPosition = 1) = expected.isKey := by
    cases expected.isKey <;> simp
  unfold Column.check
  rw [key]
  split_ifs with name shape default
  · exact iff_of_false nofun fun h => name h.1
  · refine iff_of_false nofun ?_
    rintro ⟨-, type_, required, key, -⟩
    rcases shape with other | other | other
    · exact other type_
    · exact other required
    · exact other key
  · exact iff_of_false nofun fun h => default h.2.2.2.2
  · simp only [not_or, not_not] at name shape default
    exact iff_of_true rfl ⟨name, shape.1, shape.2.1, shape.2.2, default⟩

/-- A column of a known type is compared with its definition. -/
theorem agrees_iff (table : String) {found : Catalogue.Column} {expected : Column} :
    Agrees found expected ↔
      ∃ type, ColumnType.ofName? found.type = some type ∧ expected.check table found type = .ok () := by
  simp only [Column.check_eq_ok, ColumnType.ofName?_eq_some]
  constructor
  · intro h
    exact ⟨expected.type, h.type, h.name, rfl, h.required, h.key, h.default?⟩
  · rintro ⟨_, typed, name, rfl, required, key, default⟩
    exact ⟨name, typed, required, key, default⟩

theorem typedColumns?_cons (col : Catalogue.Column) (rest : List Catalogue.Column)
    (found : List (Catalogue.Column × ColumnType)) :
    typedColumns? (col :: rest) = some found ↔
      ∃ type more, ColumnType.ofName? col.type = some type ∧ typedColumns? rest = some more ∧
        (col, type) :: more = found := by
  unfold typedColumns?
  rw [List.mapM_cons]
  simp [Option.bind_eq_some_iff]

/-- Reported columns are accepted if and only if there is one for each defined column and the two agree. -/
theorem columns_accepted_iff (table : String) (columns : List Catalogue.Column) (expected : List Column) :
    (∃ found, typedColumns? columns = some found ∧ found.length = expected.length ∧
      checkColumns table found expected = .ok ()) ↔ List.Forall₂ Agrees columns expected := by
  induction columns generalizing expected with
  | nil =>
    cases expected with
    | nil => exact iff_of_true ⟨[], rfl, rfl, rfl⟩ .nil
    | cons e more =>
      refine iff_of_false ?_ nofun
      rintro ⟨found, typed, length, -⟩
      cases typed
      cases length
  | cons col columns ih =>
    cases expected with
    | nil =>
      refine iff_of_false ?_ nofun
      rintro ⟨found, typed, length, -⟩
      obtain ⟨type, rest, -, -, rfl⟩ := (typedColumns?_cons ..).mp typed
      cases length
    | cons e more =>
      rw [List.forall₂_cons, ← ih, agrees_iff table]
      simp only [typedColumns?_cons]
      constructor
      · rintro ⟨_, ⟨type, rest, typed, others, rfl⟩, length, checked⟩
        obtain ⟨first, checked⟩ := andThen_eq_ok.mp checked
        exact ⟨⟨type, typed, first⟩, rest, others, Nat.succ.inj length, checked⟩
      · rintro ⟨⟨type, typed, first⟩, rest, others, length, checked⟩
        refine ⟨(col, type) :: rest, ⟨type, rest, typed, others, rfl⟩, congrArg Nat.succ length, ?_⟩
        exact andThen_eq_ok.mpr ⟨first, checked⟩

theorem checkIndices_eq_ok (c : Catalogue) (table : String) (indices : List (String × String)) :
    checkIndices c table indices = .ok () ↔ ∀ index ∈ indices, c.hasIndex index.1 table = true := by
  induction indices with
  | nil => simp [checkIndices]
  | cons index rest ih =>
    rw [checkIndices, List.forall_mem_cons]
    split
    · rw [ih, and_iff_right ‹_›]
    · exact iff_of_false nofun fun h => absurd h.1 ‹_›

/-- Which tables are accepted: those whose columns agree with the defined ones in pairs, and for which the database
lists every index. -/
theorem validate_eq_ok_iff (c : Catalogue) (t : Table) :
    t.validate c = .ok () ↔
      Catalogue.isPlainName t.name = true ∧ List.Forall₂ Agrees (c.columns t.name) t.columns ∧
        ∀ index ∈ t.indices, c.hasIndex index.1 t.name = true := by
  rw [← checkIndices_eq_ok, ← columns_accepted_iff t.name]
  unfold Table.validate
  cases plain : Catalogue.isPlainName t.name with
  | false => exact iff_of_false nofun nofun
  | true =>
    rw [if_neg (by simp), and_iff_right rfl]
    cases typed : typedColumns? (c.columns t.name) with
    | none =>
      -- A column has a type that nothing is known about, so it cannot agree with any.
      refine iff_of_false nofun ?_
      rintro ⟨⟨found, known, -⟩, -⟩
      cases known
    | some found =>
      simp only [Option.some.injEq, exists_eq_left']
      split_ifs with length
      · exact iff_of_false nofun fun h => length h.1.1
      · rw [andThen_eq_ok, and_iff_right (not_not.mp length)]

/-! ## Defaults -/

/-- Two texts of which one may have a pair of parentheses around it. -/
def SameDefault (a b : String) : Prop := a = b ∨ a = "(" ++ b ++ ")" ∨ b = "(" ++ a ++ ")"

theorem unwrapped_cases (s : String) : unwrapped s = s ∨ s = "(" ++ unwrapped s ++ ")" := by
  unfold unwrapped
  rcases Catalogue.Default.unwrapped_eq_or s.toList with bare | wrapped
  · exact .inl (by rw [bare, String.ofList_toList])
  · refine .inr (String.ext ?_)
    simpa using wrapped

theorem sameDefault_of_unwrapped {a b : String} (h : unwrapped a = unwrapped b) : SameDefault a b := by
  -- Both texts may have lost a pair of parentheses, and then they were equal with it too.
  rcases unwrapped_cases a with bareA | wrappedA
  · rcases unwrapped_cases b with bareB | wrappedB
    · exact .inl (bareA.symm.trans (h.trans bareB))
    · exact .inr (.inr (by rw [← bareA, h, ← wrappedB]))
  · rcases unwrapped_cases b with bareB | wrappedB
    · exact .inr (.inl (by rw [← bareB, ← h, ← wrappedA]))
    · exact .inl (by rw [wrappedA, wrappedB, h])

theorem sameDefault_of_map {a b : Option String} (h : a.map unwrapped = b.map unwrapped) :
    Option.Rel SameDefault a b := by
  cases a with
  | none =>
    cases b with
    | none => exact .none
    | some b => cases h
  | some a =>
    cases b with
    | none => cases h
    | some b => exact .some (sameDefault_of_unwrapped (Option.some.inj h))

/-! ## Keys -/

/-- The columns in the primary key of a table in the database. -/
def foundKey (columns : List Catalogue.Column) : List String :=
  (columns.filter fun col => col.keyPosition ≠ 0).map Catalogue.Column.name

/-- The columns that a definition marks as the key. -/
def markedKey (columns : List Column) : List String := (columns.filter Column.isKey).map Column.name

theorem foundKey_cons (col : Catalogue.Column) (rest : List Catalogue.Column) :
    foundKey (col :: rest) = if col.keyPosition ≠ 0 then col.name :: foundKey rest else foundKey rest := by
  unfold foundKey
  rw [List.filter_cons]
  split <;> simp_all

theorem markedKey_cons (col : Column) (rest : List Column) :
    markedKey (col :: rest) = if col.isKey then col.name :: markedKey rest else markedKey rest := by
  unfold markedKey
  rw [List.filter_cons]
  split <;> simp_all

/-- A column that is marked is in the key. -/
theorem length_markedKey_le {columns : List Catalogue.Column} {expected : List Column}
    (agree : List.Forall₂ Agrees columns expected) : (markedKey expected).length ≤ (foundKey columns).length := by
  induction agree with
  | nil => exact Nat.le_refl _
  | @cons col e rest more first _ ih =>
    rw [foundKey_cons, markedKey_cons]
    split
    · rename_i marked
      have position : col.keyPosition ≠ 0 := by
        rw [first.key.mp marked]
        exact Nat.one_ne_zero
      rw [if_pos position]
      exact Nat.succ_le_succ ih
    · split
      · exact Nat.le_succ_of_le ih
      · exact ih

/-- The key is the marked one if and only if no column has a place behind the first one in it. -/
theorem foundKey_eq_iff {columns : List Catalogue.Column} {expected : List Column}
    (agree : List.Forall₂ Agrees columns expected) :
    foundKey columns = markedKey expected ↔ ∀ col ∈ columns, col.keyPosition ≤ 1 := by
  induction agree with
  | nil => exact iff_of_true rfl (List.forall_mem_nil _)
  | @cons col e rest more first agree ih =>
    rw [foundKey_cons, markedKey_cons, List.forall_mem_cons, ← ih]
    match position : col.keyPosition with
    | 0 =>
      have unmarked : ¬e.isKey = true := fun marked => by
        rw [first.key.mp marked] at position
        cases position
      rw [if_neg (by simp), if_neg unmarked]
      exact (and_iff_right (Nat.zero_le 1)).symm
    | 1 =>
      rw [if_pos (by simp), if_pos (first.key.mpr position), first.name, List.cons.injEq]
      simp
    | n + 2 =>
      -- The column is not marked, so the key has one column more than the definition marks.
      have unmarked : ¬e.isKey = true := fun marked => by
        rw [first.key.mp marked] at position
        cases position
      rw [if_pos (by simp), if_neg unmarked]
      refine iff_of_false (fun same => ?_) fun h => absurd h.1 (by omega)
      have longer := length_markedKey_le agree
      rw [← same, List.length_cons] at longer
      omega

/-! ## Accepted tables -/

/-- A column in the database is the defined one, the key apart. -/
structure Matches (found : Catalogue.Column) (expected : Column) : Prop where
  name : found.name = expected.name
  type : found.type = expected.type.name
  required : found.required = expected.required
  default? : Option.Rel SameDefault found.default? expected.default?

/-- A table in the database is the defined one: it is no view, its columns are the defined ones in pairs, and the
columns in its key are the marked ones. -/
structure Exact (found : Catalogue.Table) (t : Table) : Prop where
  table : found.isView = false
  columns : List.Forall₂ Matches found.columns t.columns
  key : foundKey found.columns = markedKey t.columns

theorem Agrees.matches_ {found : Catalogue.Column} {expected : Column} (h : Agrees found expected) :
    Matches found expected :=
  ⟨h.name, h.type, h.required, sameDefault_of_map h.default?⟩

/-- Everything is reported of a table if and only if no column of it is hidden. -/
theorem reported_eq_iff (found : Catalogue.Table) :
    found.reported = found.columns ↔ ∀ col ∈ found.columns, col.isHidden = false := by
  simp only [Catalogue.Table.reported, List.filter_eq_self, Bool.not_eq_true']

theorem exact_iff {found : Catalogue.Table} {t : Table} (agree : List.Forall₂ Agrees found.reported t.columns) :
    Exact found t ↔ found.isView = false ∧ (∀ col ∈ found.columns, col.isHidden = false) ∧
      ∀ col ∈ found.columns, col.keyPosition ≤ 1 := by
  constructor
  · intro exact
    -- The report is as long as the definition, and so is the table, so the report leaves nothing out.
    have whole : found.reported = found.columns :=
      List.filter_sublist.eq_of_length (agree.length_eq.trans exact.columns.length_eq.symm)
    refine ⟨exact.table, (reported_eq_iff found).mp whole, ?_⟩
    rw [whole] at agree
    exact (foundKey_eq_iff agree).mp exact.key
  · rintro ⟨table, shown, single⟩
    rw [(reported_eq_iff found).mpr shown] at agree
    exact ⟨table, agree.imp fun _ _ => Agrees.matches_, (foundKey_eq_iff agree).mpr single⟩

/-- A table that is accepted is reported with the defined columns in the defined order, each with its name, its type,
whether it is required, and its default up to a pair of parentheses; and every index is there on it. Its reported key
is the defined one if and only if no column has a place behind the first one in the key. And it is the defined table
altogether if and only if it is no view, has no hidden column, and has no such key. -/
theorem accepted_table_exact_iff {c : Catalogue} {t : Table} (accepted : t.validate c = .ok ()) :
    List.Forall₂ Matches (c.columns t.name) t.columns ∧
      (∀ index ∈ t.indices, ∃ i ∈ c.indices, i.name = index.1 ∧ i.table = t.name) ∧
      (foundKey (c.columns t.name) = markedKey t.columns ↔ ∀ col ∈ c.columns t.name, col.keyPosition ≤ 1) ∧
      (t.columns ≠ [] → ∃ found, c.table? t.name = some found) ∧
      ∀ found, c.table? t.name = some found → found.reported = c.columns t.name ∧
        (Exact found t ↔ found.isView = false ∧ (∀ col ∈ found.columns, col.isHidden = false) ∧
          ∀ col ∈ found.columns, col.keyPosition ≤ 1) := by
  obtain ⟨-, agree, indices⟩ := (validate_eq_ok_iff c t).mp accepted
  refine ⟨agree.imp fun _ _ => Agrees.matches_, fun index listed => ?_, foundKey_eq_iff agree, fun some_ => ?_,
    fun found there => ?_⟩
  · simpa [Catalogue.hasIndex] using indices index listed
  · cases there : c.table? t.name with
    | some found => exact ⟨found, rfl⟩
    | none =>
      simp only [Catalogue.columns, there, List.forall₂_nil_left_iff] at agree
      exact absurd agree some_
  · have reported : found.reported = c.columns t.name := by simp only [Catalogue.columns, there]
    rw [← reported] at agree
    exact ⟨reported, exact_iff agree⟩

/-- The table of tasks as somebody else might have made it: the key is declared behind the columns, and the default
stands between parentheses. -/
def madeElsewhere (key : List String) : Catalogue :=
  ({} : Catalogue).declare
    { name := taskTable.name
      columns := taskTable.declaration.columns.map fun col =>
        { col with isKey := false, default? := col.default?.map fun text => "(" ++ text ++ ")" }
      key }
    taskTable.indices

theorem accepted_table_exact_made_elsewhere :
    taskTable.validate (madeElsewhere ["id"]) = .ok () ∧
      ∃ found, (madeElsewhere ["id"]).table? taskTable.name = some found ∧ Exact found taskTable := by
  have accepted : taskTable.validate (madeElsewhere ["id"]) = .ok () := by decide +kernel
  obtain ⟨-, -, -, some_, exact⟩ := accepted_table_exact_iff accepted
  obtain ⟨found, there⟩ := some_ (by decide)
  have plain : ∀ found ∈ (madeElsewhere ["id"]).table? taskTable.name, found.isView = false ∧
      (∀ col ∈ found.columns, col.isHidden = false) ∧ ∀ col ∈ found.columns, col.keyPosition ≤ 1 := by
    decide +kernel
  exact ⟨accepted, found, there, (exact found there).2.mpr (plain found there)⟩

/-- With a key of two columns the table is accepted too, although the definition marks only one of them. -/
theorem composite_key_accepted :
    taskTable.validate (madeElsewhere ["id", "kind"]) = .ok () ∧ markedKey taskTable.columns = ["id"] ∧
      foundKey ((madeElsewhere ["id", "kind"]).columns taskTable.name) = ["id", "kind"] := by
  decide +kernel

/-- Notes with a text each. -/
def noteTable : Table := { name := "notes", columns := [{ name := "text", type := .text }] }

/-- A computed column of this name and a view that shows such a column are accepted for want of a look at them. -/
theorem hidden_column_and_view_accepted :
    let shown : Catalogue.Column :=
      { name := "text", type := "TEXT", required := false, default? := none, keyPosition := 0 }
    let computed : Catalogue.Column := { shown with name := "length", type := "INTEGER", isHidden := true }
    noteTable.validate { tables := [{ name := "notes", columns := [shown, computed] }] } = .ok () ∧
      noteTable.validate { tables := [{ name := "notes", columns := [shown], isView := true }] } = .ok () := by
  decide +kernel

end Courier.Schema
