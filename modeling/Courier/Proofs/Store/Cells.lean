/-
# Courier.Proofs.Store.Cells -- which rows a query fails on

A query converts the rows of its result one by one and fails at the first that it cannot convert, so what
counts is which rows the result has: `Converts` says what becomes of a list of rows, and an answer of a query is
`Converts` of the rows that its condition, its order and its limit leave (`Query.Fails`).

A row cannot be converted for one of two reasons: a column holds a value of another class than is asked of it,
or the status or the type is a text that names none. The second kind of row is in no result that was
selected by a status; the first may be.

The queries of a `Store` answer as the queries of its tables may.
-/
import Courier.Proofs.Store.Refinement
import Courier.Proofs.Store.Details
import Courier.Store.Cells

namespace Courier

/-! ## Values -/

namespace Cell

def isText : Cell → Bool
  | .text _ => true
  | _ => false

def isBlob : Cell → Bool
  | .blob _ => true
  | _ => false

def isInteger : Cell → Bool
  | .integer _ => true
  | _ => false

theorem isText_iff {x : Cell} : x.isText = true ↔ ∃ s, x = .text s := by cases x <;> simp [isText]

theorem isBlob_iff {x : Cell} : x.isBlob = true ↔ ∃ b, x = .blob b := by cases x <;> simp [isBlob]

theorem isInteger_iff {x : Cell} : x.isInteger = true ↔ ∃ z, x = .integer z := by cases x <;> simp [isInteger]

theorem asText_eq_ok {x : Cell} {s : String} : x.asText = .ok s ↔ x = .text s := by cases x <;> simp [asText]

theorem asBytes_eq_ok {x : Cell} {b : Bytes} : x.asBytes = .ok b ↔ x = .blob b := by cases x <;> simp [asBytes]

theorem asInteger_eq_ok {x : Cell} {z : Int} : x.asInteger = .ok z ↔ x = .integer z := by
  cases x <;> simp [asInteger]

/-- A value of another class is reported by the database, whatever it is. -/
theorem asText_eq_error {x : Cell} {e : Store.Error} : x.asText = .error e ↔ x.isText = false ∧ e = .database := by
  cases x <;> simp [asText, isText, eq_comm]

theorem asBytes_eq_error {x : Cell} {e : Store.Error} : x.asBytes = .error e ↔ x.isBlob = false ∧ e = .database := by
  cases x <;> simp [asBytes, isBlob, eq_comm]

theorem asInteger_eq_error {x : Cell} {e : Store.Error} :
    x.asInteger = .error e ↔ x.isInteger = false ∧ e = .database := by
  cases x <;> simp [asInteger, isInteger, eq_comm]

theorem orNull_eq_ok {α : Type} {read : Cell → Except Store.Error α} {x : Cell} {y : Option α} :
    x.orNull read = .ok y ↔ x = .null ∧ y = none ∨ x ≠ .null ∧ ∃ z, read x = .ok z ∧ y = some z := by
  unfold orNull
  split
  · simp [eq_comm]
  · rename_i present
    have present : x ≠ .null := present
    cases read x <;> simp [Except.map, present, eq_comm]

theorem exists_orNull_eq_ok {α : Type} {read : Cell → Except Store.Error α} {x : Cell} :
    (∃ y, x.orNull read = .ok y) ↔ x = .null ∨ ∃ z, read x = .ok z := by
  simp only [orNull_eq_ok]
  grind

theorem orNull_eq_error {α : Type} {read : Cell → Except Store.Error α} {x : Cell} {e : Store.Error} :
    x.orNull read = .error e ↔ x ≠ .null ∧ read x = .error e := by
  unfold orNull
  split
  · simp
  · rename_i present
    have present : x ≠ .null := present
    cases read x <;> simp [Except.map, present]

theorem key_integer (a b : Int) : (integer a).key ≤ (integer b).key ↔ a ≤ b := by
  simp only [key, rank, number, bytes, Prod.Lex.toLex_le_toLex, lt_irrefl, true_and, false_or, List.map_nil, le_refl,
    and_true, ← le_iff_lt_or_eq, Int.cast_le]

theorem key_integer_inj {a b : Int} : (integer a).key = (integer b).key ↔ a = b := by
  rw [le_antisymm_iff, key_integer, key_integer]
  omega

end Cell

/-! ## Corrupt rows -/

theorem bind_eq_ok {α β : Type} {x : Except Store.Error α} {f : α → Except Store.Error β} {y : β} :
    (x >>= f) = .ok y ↔ ∃ a, x = .ok a ∧ f a = .ok y := by
  cases x <;> simp [bind, Except.bind]

theorem bind_eq_error {α β : Type} {x : Except Store.Error α} {f : α → Except Store.Error β} {e : Store.Error} :
    (x >>= f) = .error e ↔ x = .error e ∨ ∃ a, x = .ok a ∧ f a = .error e := by
  cases x <;> simp [bind, Except.bind]

theorem Store.Error.unless_eq_ok {α : Type} {named? : String → Option α} {failure : String → Store.Error}
    {text : String} {x : α} : Store.Error.unless named? failure text = .ok x ↔ named? text = some x := by
  unfold Store.Error.unless
  cases named? text <;> simp

theorem Store.Error.unless_eq_error {α : Type} {named? : String → Option α} {failure : String → Store.Error}
    {text : String} {e : Store.Error} :
    Store.Error.unless named? failure text = .error e ↔ named? text = none ∧ e = failure text := by
  unfold Store.Error.unless
  cases named? text <;> simp [eq_comm]

namespace TaskCells

/-- Do the columns that are read before the status is understood hold what is asked of them? -/
def opens (row : TaskCells) : Bool :=
  row.status.isText && row.id.isText && row.title.isText && row.kind.isText && row.payload.isBlob

/-- Does every column hold what is asked of it? -/
def fits (row : TaskCells) : Bool :=
  row.opens && row.createdAt.isInteger && row.updatedAt.isInteger &&
    (row.completedAt == .null || row.completedAt.isInteger) && row.error.isText

/-- The status, if it is a text that is none of the program's. -/
def foreign? (row : TaskCells) : Option String :=
  match row.status with
  | .text t => if (Status.ofName? t).isNone then some t else none
  | _ => none

def IsCorrupt (row : TaskCells) : Prop := row.fits = false ∨ row.foreign?.isSome = true

instance (row : TaskCells) : Decidable row.IsCorrupt := inferInstanceAs (Decidable (_ ∨ _))

theorem foreign?_eq_some {row : TaskCells} {t : String} :
    row.foreign? = some t ↔ row.status = .text t ∧ Status.ofName? t = none := by
  unfold foreign?
  cases row.status <;> simp
  grind

theorem record_cells (r : Record) : r.row.cells.record = .ok r := by
  obtain ⟨id, title, kind, payload, status, createdAt, updatedAt, completedAt, error⟩ := r
  cases status <;> cases completedAt <;> rfl

/-- A record is read from the cells that it is written to, and from no others. -/
theorem record_eq_ok {row : TaskCells} {r : Record} : row.record = .ok r ↔ row = r.row.cells := by
  refine ⟨fun read => ?_, fun same => same ▸ record_cells r⟩
  simp only [record, bind_eq_ok, Cell.asText_eq_ok, Cell.asBytes_eq_ok, Cell.asInteger_eq_ok,
    Store.Error.unless_eq_ok] at read
  obtain ⟨text, hstatus, id, hid, title, htitle, kind, hkind, payload, hpayload, status, named, createdAt, hcreated,
    updatedAt, hupdated, completedAt, hcompleted, error, herror, made⟩ := read
  cases made
  have reached : row.completedAt = completedAt.elim .null .integer := by
    rcases Cell.orNull_eq_ok.mp hcompleted with ⟨null, rfl⟩ | ⟨-, z, read, rfl⟩
    · exact null
    · exact Cell.asInteger_eq_ok.mp read
  cases row
  simp_all [Record.row, Row.cells, Column.cell, Status.name_of_ofName? named]

/-- The row of a record, and no other, fits and has a status of the program's. -/
theorem exists_record_iff (row : TaskCells) : (∃ r, row.record = .ok r) ↔ row.fits = true ∧ row.foreign? = none := by
  constructor
  · rintro ⟨r, read⟩
    obtain rfl := record_eq_ok.mp read
    obtain ⟨id, title, kind, payload, status, createdAt, updatedAt, completedAt, error⟩ := r
    cases status <;> cases completedAt <;> exact ⟨rfl, rfl⟩
  · rintro ⟨whole, named⟩
    simp only [fits, opens, Bool.and_eq_true, Bool.or_eq_true, beq_iff_eq, Cell.isText_iff, Cell.isBlob_iff,
      Cell.isInteger_iff] at whole
    obtain ⟨⟨⟨⟨⟨⟨⟨⟨⟨text, hstatus⟩, id, hid⟩, title, htitle⟩, kind, hkind⟩, payload, hpayload⟩, createdAt, hcreated⟩,
      updatedAt, hupdated⟩, ended⟩, error, herror⟩ := whole
    obtain ⟨status, hnamed⟩ : ∃ status, Status.ofName? text = some status := by
      rw [← Option.isSome_iff_exists, Option.isSome_iff_ne_none]
      intro unnamed
      rw [foreign?_eq_some.mpr ⟨hstatus, unnamed⟩] at named
      cases named
    obtain ⟨completedAt, hcompleted⟩ : ∃ z : Option Int, row.completedAt = z.elim .null .integer := by
      rcases ended with null | ⟨z, at'⟩
      · exact ⟨none, null⟩
      · exact ⟨some z, at'⟩
    refine ⟨⟨id, title, kind, payload, status, createdAt, updatedAt, completedAt, error⟩, record_eq_ok.mpr ?_⟩
    cases row
    simp_all [Record.row, Row.cells, Column.cell, Status.name_of_ofName? hnamed]

/-- A query that reaches a row fails on it if and only if the row is corrupt. -/
theorem isCorrupt_iff (row : TaskCells) : row.IsCorrupt ↔ ∃ e, row.record = .error e := by
  have readable : (∃ e, row.record = .error e) ↔ ¬ ∃ r, row.record = .ok r := by
    cases row.record <;> simp
  rw [readable, exists_record_iff, IsCorrupt, not_and_or, Bool.not_eq_true, ← ne_eq, ← Option.isSome_iff_ne_none]

/-- It fails with the status only if the columns before it are in order. -/
theorem record_eq_foreignStatus {row : TaskCells} {t : String} :
    row.record = .error (.foreignStatus t) ↔ row.opens = true ∧ row.foreign? = some t := by
  rw [foreign?_eq_some]
  simp only [record, bind_eq_error, Cell.asText_eq_error, Cell.asText_eq_ok, Cell.asBytes_eq_error,
    Cell.asBytes_eq_ok, Cell.asInteger_eq_error, Cell.orNull_eq_error, Store.Error.unless_eq_error, opens,
    Cell.isText_iff, Cell.isBlob_iff, Bool.and_eq_true, reduceCtorEq, and_false, false_or, pure, Except.pure]
  grind

end TaskCells

namespace EventCells

/-- Does every column hold what is asked of it? -/
def fits (row : EventCells) : Bool :=
  row.type.isText && (row.details == .null || row.details.isText) && (row.id == .null || row.id.isInteger) &&
    row.taskId.isText && row.timestamp.isInteger

/-- The type, if it is a text that is none of the program's. -/
def foreign? (row : EventCells) : Option String :=
  match row.type with
  | .text t => if (EventType.ofName? t).isNone then some t else none
  | _ => none

def IsCorrupt (row : EventCells) : Prop := row.fits = false ∨ row.foreign?.isSome = true

instance (row : EventCells) : Decidable row.IsCorrupt := inferInstanceAs (Decidable (_ ∨ _))

theorem foreign?_eq_some {row : EventCells} {t : String} :
    row.foreign? = some t ↔ row.type = .text t ∧ EventType.ofName? t = none := by
  unfold foreign?
  cases row.type <;> simp
  grind

/-- An entry is read from the rows, and from no others, that fit and have a type of the program's. -/
theorem exists_entry_iff (row : EventCells) : (∃ e, row.entry = .ok e) ↔ row.fits = true ∧ row.foreign? = none := by
  constructor
  · rintro ⟨e, read⟩
    simp only [entry, bind_eq_ok, Cell.asText_eq_ok, Cell.asInteger_eq_ok, Store.Error.unless_eq_ok] at read
    obtain ⟨text, htype, details, hdetails, id, hid, taskId, htask, type, named, timestamp, htime, -⟩ := read
    have details : row.details = .null ∨ ∃ t, row.details = .text t := by
      simpa only [Cell.asText_eq_ok] using Cell.exists_orNull_eq_ok.mp ⟨details, hdetails⟩
    have id : row.id = .null ∨ ∃ z, row.id = .integer z := by
      simpa only [Cell.asInteger_eq_ok] using Cell.exists_orNull_eq_ok.mp ⟨id, hid⟩
    exact ⟨by simp [fits, Cell.isText_iff, Cell.isInteger_iff, htype, details, id, htask, htime],
      by simp [foreign?, htype, named]⟩
  · rintro ⟨whole, named⟩
    simp only [fits, Bool.and_eq_true, Bool.or_eq_true, beq_iff_eq, Cell.isText_iff, Cell.isInteger_iff] at whole
    obtain ⟨⟨⟨⟨⟨text, htype⟩, hdetails⟩, hid⟩, taskId, htask⟩, timestamp, htime⟩ := whole
    obtain ⟨type, hnamed⟩ : ∃ type, EventType.ofName? text = some type := by
      rw [← Option.isSome_iff_exists, Option.isSome_iff_ne_none]
      intro unnamed
      rw [foreign?_eq_some.mpr ⟨htype, unnamed⟩] at named
      cases named
    obtain ⟨details, readDetails⟩ : ∃ y, row.details.orNull Cell.asText = .ok y :=
      Cell.exists_orNull_eq_ok.mpr (by simpa only [Cell.asText_eq_ok] using hdetails)
    obtain ⟨id, readId⟩ : ∃ y, row.id.orNull Cell.asInteger = .ok y :=
      Cell.exists_orNull_eq_ok.mpr (by simpa only [Cell.asInteger_eq_ok] using hid)
    have understood : Store.Error.unless EventType.ofName? .foreignEventType text = .ok type :=
      Store.Error.unless_eq_ok.mpr hnamed
    simp only [entry, htype, htask, htime, readDetails, readId, Cell.asText, Cell.asInteger, bind, Except.bind,
      understood]
    exact ⟨_, rfl⟩

theorem isCorrupt_iff (row : EventCells) : row.IsCorrupt ↔ ∃ e, row.entry = .error e := by
  have readable : (∃ e, row.entry = .error e) ↔ ¬ ∃ e, row.entry = .ok e := by
    cases row.entry <;> simp
  rw [readable, exists_entry_iff, IsCorrupt, not_and_or, Bool.not_eq_true, ← ne_eq, ← Option.isSome_iff_ne_none]

end EventCells

namespace Store

/-! ## Converting the rows of a result -/

/-- What becomes of the rows of a result: the first that cannot be converted is why the query fails,
and without one the answer has all of them. -/
structure Converts {α β : Type} (convert : α → Except Error β) (xs : List α)
    (answer : Except Error (List β)) : Prop where
  fails : ∀ e, answer = .error e ↔
    ∃ before x after, xs = before ++ x :: after ∧ convert x = .error e ∧
      ∀ y ∈ before, ∃ z, convert y = .ok z
  returns : ∀ ys, answer = .ok ys ↔ List.Forall₂ (fun x y => convert x = .ok y) xs ys

variable {α β : Type} {convert : α → Except Error β} {xs : List α}

theorem converts_nil : Converts convert [] (.ok []) where
  fails := fun e => by simp
  returns := fun ys => by simp [eq_comm]

theorem converts_cons_of_error {x : α} {e : Error} (h : convert x = .error e) :
    Converts convert (x :: xs) (.error e) where
  fails := fun e' => by
    constructor
    · rintro ⟨⟩
      exact ⟨[], x, xs, rfl, h, by simp⟩
    · rintro ⟨before, y, after, split, failed, converted⟩
      cases before with
      | nil =>
        obtain ⟨rfl, rfl⟩ := List.cons.inj split
        exact congrArg _ (Except.error.inj (h.symm.trans failed))
      | cons z before =>
        -- Nothing stands before a head that cannot be converted.
        obtain ⟨rfl, -⟩ := List.cons.inj split
        obtain ⟨_, ok⟩ := converted x List.mem_cons_self
        cases h.symm.trans ok
  returns := fun ys => by
    refine iff_of_false nofun fun related => ?_
    cases related with
    | cons ok _ => cases h.symm.trans ok

theorem Converts.cons_of_ok {x : α} {y : β} (h : convert x = .ok y) {answer : Except Error (List β)}
    (rest : Converts convert xs answer) : Converts convert (x :: xs) (answer.map (y :: ·)) where
  fails := fun e => by
    have same : answer.map (y :: ·) = .error e ↔ answer = .error e := by cases answer <;> simp [Except.map]
    rw [same, rest.fails]
    constructor
    · rintro ⟨before, z, after, rfl, failed, converted⟩
      exact ⟨x :: before, z, after, rfl, failed, List.forall_mem_cons.mpr ⟨⟨y, h⟩, converted⟩⟩
    · rintro ⟨before, z, after, split, failed, converted⟩
      cases before with
      | nil =>
        obtain ⟨rfl, -⟩ := List.cons.inj split
        cases h.symm.trans failed
      | cons x' before =>
        obtain ⟨rfl, rfl⟩ := List.cons.inj split
        exact ⟨before, z, after, rfl, failed, (List.forall_mem_cons.mp converted).2⟩
  returns := fun ys => by
    have same : answer.map (y :: ·) = .ok ys ↔ ∃ zs, answer = .ok zs ∧ y :: zs = ys := by
      cases answer <;> simp [Except.map]
    rw [same]
    constructor
    · rintro ⟨zs, ok, rfl⟩
      exact .cons h ((rest.returns zs).mp ok)
    · rintro (_ | ⟨ok, others⟩)
      obtain rfl := Except.ok.inj (h.symm.trans ok)
      exact ⟨_, (rest.returns _).mpr others, rfl⟩

theorem converts_mapM (convert : α → Except Error β) (xs : List α) : Converts convert xs (xs.mapM convert) := by
  induction xs with
  | nil => exact converts_nil
  | cons x xs ih =>
    rw [List.mapM_cons]
    cases h : convert x with
    | error e => exact converts_cons_of_error h
    | ok y =>
      have step : (do let y ← .ok y; let ys ← xs.mapM convert; pure (y :: ys)) = (xs.mapM convert).map (y :: ·) := by
        cases xs.mapM convert <;> rfl
      rw [step]
      exact ih.cons_of_ok h

variable {answer : Except Error (List β)}

/-- A query fails if and only if one of its rows cannot be converted. -/
theorem Converts.fails_iff (h : Converts convert xs answer) :
    (∃ e, answer = .error e) ↔ ∃ x ∈ xs, ∃ e, convert x = .error e := by
  constructor
  · rintro ⟨e, failed⟩
    obtain ⟨before, x, after, rfl, hx, -⟩ := (h.fails e).mp failed
    exact ⟨x, by simp, e, hx⟩
  · rintro ⟨x, hx, e, failed⟩
    cases hanswer : answer with
    | error e => exact ⟨e, rfl⟩
    | ok ys =>
      have each := ((h.returns ys).mp hanswer).imp fun x y ok => And.intro (Exists.intro y ok) ok
      obtain ⟨y, ok⟩ := ((List.forall₂_and_left xs ys).mp each).1 x hx
      cases ok.symm.trans failed

end Store

/-! ## Answers -/

namespace Query

variable {α β : Type} {q : Query α} {convert : α → Except Store.Error β} {table : List α} {spoilt : α → Prop}

/-- The rows of the answer in an order that the query allows; the query fails with the first of them that cannot be
converted, so it fails if and only if one of them is spoilt, and otherwise it has them all. -/
structure Fails (q : Query α) (convert : α → Except Store.Error β) (table : List α) (spoilt : α → Prop)
    (answer : Except Store.Error (List β)) (arranged : List α) : Prop where
  arranges : q.Arranges table arranged
  converts : Store.Converts convert (q.cut arranged) answer
  fails : (∃ e, answer = .error e) ↔ ∃ x ∈ q.cut arranged, spoilt x

theorem mem_of_cut {x : α} {arranged : List α} (h : x ∈ q.cut arranged) : x ∈ arranged := by
  unfold cut at h
  split at h
  · exact h
  · exact Store.mem_of_limited h

theorem cut_of_length_le {limit : Nat} (h : q.limit = some limit) {arranged : List α}
    (short : arranged.length ≤ limit) : q.cut arranged = arranged := by
  simp only [cut, h, Store.limited_eq_take (Or.inr short), List.take_of_length_le short]

/-- A row of an answer is wanted. -/
theorem Arranges.wanted {arranged : List α} (h : q.Arranges table arranged) {x : α} (hx : x ∈ arranged) :
    x ∈ table ∧ q.wanted x = true :=
  List.mem_filter.mp (h.perm.mem_iff.mp hx)

theorem fails_of_answers {answer : Except Store.Error (List β)} (h : q.Answers convert (some table) answer)
    (corrupt : ∀ x, q.wanted x = true → (spoilt x ↔ ∃ e, convert x = .error e)) :
    ∃ arranged, q.Fails convert table spoilt answer arranged := by
  obtain ⟨arranged, arranges, rfl⟩ := h
  have converts := Store.converts_mapM convert (q.cut arranged)
  refine ⟨arranged, arranges, converts, converts.fails_iff.trans ?_⟩
  refine exists_congr fun x => and_congr_right fun hx => ?_
  exact (corrupt x (arranges.wanted (mem_of_cut hx)).2).symm

/-- Every table can be arranged, so every query has an answer. -/
theorem exists_answers (total : ∀ a b, q.before a b ∨ q.before b a)
    (trans : ∀ a b c, q.before a b → q.before b c → q.before a c) (table? : Option (List α)) :
    ∃ answer, q.Answers convert table? answer := by
  classical
  cases table? with
  | none => exact ⟨_, rfl⟩
  | some table =>
    refine ⟨_, (table.filter q.wanted).mergeSort fun a b => q.before a b, ⟨List.mergeSort_perm _ _, ?_⟩, rfl⟩
    have sorted := @List.pairwise_mergeSort _ (fun a b => decide (q.before a b)) (by simpa using trans)
      (by simpa using total) (table.filter q.wanted)
    exact sorted.imp of_decide_eq_true

/-- A table whose rows are written as those of another is answered from the other. -/
theorem answers_map {γ : Type} {write : γ → α} {read : γ → Except Store.Error β} {xs arranged taken : List γ}
    (each : ∀ x ∈ xs, convert (write x) = read x) (perm : arranged.Perm (xs.filter fun x => q.wanted (write x)))
    (ordered : arranged.Pairwise fun a b => q.before (write a) (write b))
    (cut : q.cut (arranged.map write) = taken.map write) (within : ∀ x ∈ taken, x ∈ arranged) :
    q.Answers convert (some (xs.map write)) (taken.mapM read) := by
  refine ⟨arranged.map write, ⟨?_, List.pairwise_map.mpr ordered⟩, ?_⟩
  · rw [List.filter_map]
    exact perm.map write
  · have each : ∀ x ∈ taken, convert (write x) = read x :=
      fun x hx => each x (List.mem_filter.mp (perm.mem_iff.mp (within x hx))).1
    rw [cut]
    clear cut within
    induction taken with
    | nil => rfl
    | cons x taken ih =>
      rw [List.map_cons, List.mapM_cons, List.mapM_cons, each x List.mem_cons_self,
        ih fun y hy => each y (List.mem_cons_of_mem x hy)]

end Query

namespace TaskCells

/-- A row that was selected by a status has none that is foreign, so it can only fail to fit. -/
theorem fits_eq_false_iff {row : TaskCells} (known : row.foreign? = none) :
    row.fits = false ↔ ∃ e, row.record = .error e := by
  rw [← isCorrupt_iff, IsCorrupt, known]
  simp

theorem foreign?_of_status {row : TaskCells} {status : Status} (h : row.status = .text status.name) :
    row.foreign? = none := by
  simp [foreign?, h, Status.ofName?_name]

theorem foreign?_of_isUnfinished {row : TaskCells} (h : row.isUnfinished = true) : row.foreign? = none := by
  rw [isUnfinished, Bool.or_eq_true, beq_iff_eq, beq_iff_eq] at h
  exact h.elim foreign?_of_status foreign?_of_status

end TaskCells

namespace Database

variable {d : Database} {rows : List TaskCells} {events : List EventCells}

theorem get_of_row? {id : String} {row : TaskCells} (found : d.row? id = some row) : d.get id = row.record := by
  unfold get
  cases table : d.tasks? with
  | none => simp [row?, table] at found
  | some rows => rw [found]

/-- The listing of all tasks may reach any corrupt row. -/
theorem lists_all_fails (table : d.tasks? = some rows) {limit : Nat} {answer : Except Store.Error (List Record)}
    (h : d.Lists none limit answer) :
    ∃ arranged, (Query.tasks none limit).Fails TaskCells.record rows TaskCells.IsCorrupt answer arranged := by
  rw [Lists, table] at h
  exact Query.fails_of_answers h fun row _ => row.isCorrupt_iff

/-- A status that is asked for is one of the program's. -/
theorem lists_status_fails (table : d.tasks? = some rows) {status : Status} {limit : Nat}
    {answer : Except Store.Error (List Record)} (h : d.Lists (some status) limit answer) :
    ∃ arranged, (Query.tasks (some status) limit).Fails TaskCells.record rows (fun row => row.fits = false) answer
      arranged := by
  rw [Lists, table] at h
  refine Query.fails_of_answers h fun row wanted => TaskCells.fits_eq_false_iff ?_
  exact TaskCells.foreign?_of_status (beq_iff_eq.mp wanted)

theorem listsPending_fails (table : d.tasks? = some rows) {answer : Except Store.Error (List Record)}
    (h : d.ListsPending answer) :
    ∃ arranged, Query.unfinished.Fails TaskCells.record rows (fun row => row.fits = false) answer arranged := by
  rw [ListsPending, table] at h
  exact Query.fails_of_answers h fun row wanted =>
    TaskCells.fits_eq_false_iff (TaskCells.foreign?_of_isUnfinished wanted)

/-- The entries of a task are read from its own rows. -/
theorem trails_fails (table : d.events? = some events) {id : String} {limit : Nat}
    {answer : Except Store.Error (List Entry)} (h : d.Trails id limit answer) :
    ∃ arranged, (Query.trail id limit).Fails EventCells.entry events EventCells.IsCorrupt answer arranged := by
  rw [Trails, table] at h
  exact Query.fails_of_answers h fun row _ => row.isCorrupt_iff

/-- A listing that succeeds has every unfinished task. -/
theorem mem_of_listsPending (table : d.tasks? = some rows) {records : List Record}
    (h : d.ListsPending (.ok records)) {row : TaskCells} (hrow : row ∈ rows) (unfinished : row.isUnfinished = true) :
    ∃ r ∈ records, row = r.row.cells := by
  obtain ⟨arranged, fails⟩ := listsPending_fails table h
  have there : row ∈ arranged := fails.arranges.perm.mem_iff.mpr (List.mem_filter.mpr ⟨hrow, unfinished⟩)
  have read := (fails.converts.returns records).mp rfl
  obtain ⟨i, inside, rfl⟩ := List.mem_iff_getElem.mp there
  have inside' : i < records.length := read.length_eq ▸ inside
  exact ⟨records[i], List.getElem_mem inside', TaskCells.record_eq_ok.mp (read.get inside inside')⟩

theorem exists_lists (d : Database) (status : Option Status) (limit : Nat) : ∃ answer, d.Lists status limit answer :=
  Query.exists_answers (fun _ _ => le_total _ _) (fun _ _ _ hab hbc => le_trans hbc hab) _

theorem exists_listsPending (d : Database) : ∃ answer, d.ListsPending answer :=
  Query.exists_answers (fun _ _ => le_total _ _) (fun _ _ _ => le_trans) _

theorem exists_trails (d : Database) (id : String) (limit : Nat) : ∃ answer, d.Trails id limit answer :=
  Query.exists_answers (fun _ _ => le_total _ _) (fun _ _ _ => le_trans) _

end Database

/-! ## The queries of a store -/

/-- A foreign text names nothing. -/
def Column.Proper {α : Type} (named? : String → Option α) (col : Column α) : Prop :=
  ∀ text, col = .foreign text → named? text = none

theorem Column.proper_known {α : Type} (named? : String → Option α) (x : α) : (Column.known x).Proper named? :=
  nofun

theorem Column.proper_ofText {α : Type} (named? : String → Option α) (text : String) :
    (Column.ofText named? text).Proper named? := by
  unfold Column.ofText
  split
  · nofun
  · rename_i unnamed
    rintro _ ⟨⟩
    exact unnamed

/-- No name is kept as a foreign text. -/
structure Store.Proper (s : Store) : Prop where
  rows : ∀ r ∈ s.rows?.getD [], r.status.Proper Status.ofName?
  marks : ∀ m ∈ s.marks?.getD [], m.type.Proper EventType.ofName?

namespace Store.Proper

variable {s t : Store}

theorem empty : empty.Proper := ⟨nofun, nofun⟩

theorem of_upsert {rows : List Row} (proper : ∀ r ∈ rows, r.status.Proper Status.ofName?) {row : Row}
    (new : row.status.Proper Status.ofName?) : ∀ r ∈ upsert row rows, r.status.Proper Status.ofName? := by
  induction rows with
  | nil => simpa [upsert] using new
  | cons first rest ih =>
    obtain ⟨here, later⟩ := List.forall_mem_cons.mp proper
    unfold upsert
    split
    · exact List.forall_mem_cons.mpr ⟨new, later⟩
    · exact List.forall_mem_cons.mpr ⟨here, ih later⟩

theorem put (proper : s.Proper) {r : Record} (done : s.put r = .ok t) : t.Proper := by
  refine ⟨fun row hrow => ?_, (marks?_put done).symm ▸ proper.marks⟩
  change row ∈ t.taskRows at hrow
  rw [put_eq_ok done] at hrow
  exact of_upsert proper.rows (Column.proper_known Status.ofName? r.status) row hrow

theorem updateStatus (proper : s.Proper) {id : String} {status : Status} {error : String} {now : Int}
    (done : s.updateStatus id status error now = .ok t) : t.Proper := by
  refine ⟨fun row hrow => ?_, (marks?_updateStatus done).symm ▸ proper.marks⟩
  change row ∈ t.taskRows at hrow
  rw [(updateStatus_eq_ok done).2] at hrow
  obtain ⟨r, hr, rfl⟩ := List.mem_map.mp hrow
  by_cases same : r.id = id
  · rw [if_pos same]
    exact Column.proper_known Status.ofName? status
  · rw [if_neg same]
    exact proper.rows r hr

theorem delete (proper : s.Proper) (id : String) : (s.delete id).2.Proper := by
  obtain ⟨_ | rows, _ | marks⟩ := s <;> try exact proper
  exact ⟨fun r hr => proper.rows r (List.mem_filter.mp hr).1, fun m hm => proper.marks m (List.mem_filter.mp hm).1⟩

theorem logEvent (proper : s.Proper) {e : Entry} (done : s.logEvent e = .ok t) : t.Proper := by
  obtain ⟨rows, _ | marks⟩ := s
  · cases done
  · cases done
    refine ⟨proper.rows, fun m hm => ?_⟩
    rcases List.mem_append.mp hm with old | new
    · exact proper.marks m old
    · cases List.mem_singleton.mp new
      nofun

/-- The calls of this program leave nothing in a column that is not read as it was written. -/
theorem run (proper : s.Proper) (call : Call) : (call.run s).2.Proper := by
  have written : ∀ result : Except Error Store, (∀ t, result = .ok t → t.Proper) → (written s result).2.Proper := by
    rintro (e | t) each
    · exact proper
    · exact each t rfl
  cases call with
  | put r => exact written _ fun t => proper.put
  | updateStatus id status error now => exact written _ fun t => proper.updateStatus
  | delete id => exact proper.delete id
  | logEvent e => exact written _ fun t => proper.logEvent
  | reopen => exact proper

theorem after (calls : List Call) : (after calls).Proper := by
  unfold Store.after
  suffices every : ∀ {s : Store}, s.Proper → (calls.foldl (fun s call => (call.run s).2) s).Proper from every empty
  induction calls with
  | nil => exact id
  | cons call calls ih => exact fun proper => ih (proper.run call)

theorem editStatus (proper : s.Proper) {id text : String} {n : Nat} (done : s.editStatus id text = .ok (n, t)) :
    t.Proper := by
  obtain ⟨_ | rows, marks⟩ := s
  · cases done
  · cases done
    refine ⟨List.forall_mem_map.mpr fun r hr => ?_, proper.marks⟩
    split
    · exact Column.proper_ofText Status.ofName? text
    · exact proper.rows r hr

theorem editEventType (proper : s.Proper) {id text : String} {n : Nat}
    (done : s.editEventType id text = .ok (n, t)) : t.Proper := by
  obtain ⟨rows, _ | marks⟩ := s
  · cases done
  · cases done
    refine ⟨proper.rows, List.forall_mem_map.mpr fun m hm => ?_⟩
    split
    · exact Column.proper_ofText EventType.ofName? text
    · exact proper.marks m hm

end Store.Proper

theorem Row.record_cells {row : Row} (proper : row.status.Proper Status.ofName?) : row.cells.record = row.record := by
  obtain ⟨id, title, kind, payload, status, createdAt, updatedAt, completedAt, error⟩ := row
  cases status with
  | known status => cases status <;> cases completedAt <;> rfl
  | foreign text =>
    have unnamed : Status.ofName? text = none := proper text rfl
    have understood : Store.Error.unless Status.ofName? .foreignStatus text = .error (.foreignStatus text) :=
      Store.Error.unless_eq_error.mpr ⟨unnamed, rfl⟩
    simp only [TaskCells.record, Row.cells, Column.cell, Cell.asText, Cell.asBytes, bind, Except.bind, understood]
    rfl

theorem Mark.entry_cells {mark : Mark} (proper : mark.type.Proper EventType.ofName?) :
    mark.cells.entry = mark.entry := by
  obtain ⟨id, taskId, type, timestamp, details⟩ := mark
  cases type with
  | known type => cases type <;> cases details <;> rfl
  | foreign text =>
    have unnamed : EventType.ofName? text = none := proper text rfl
    have understood : Store.Error.unless EventType.ofName? .foreignEventType text = .error (.foreignEventType text) :=
      Store.Error.unless_eq_error.mpr ⟨unnamed, rfl⟩
    cases details <;>
      simp only [EventCells.entry, Mark.cells, Column.cell, Cell.asText, Cell.asInteger, Cell.orNull, bind, Except.bind,
        understood, Option.elim, Except.map] <;> rfl

theorem Row.status_cells {row : Row} (proper : row.status.Proper Status.ofName?) (status : Status) :
    row.cells.status = .text status.name ↔ row.status = .known status := by
  show row.status.cell Status.name = _ ↔ _
  cases column : row.status with
  | known x =>
    have injective : x.name = status.name ↔ x = status := by
      cases x <;> cases status <;> decide
    simp only [Column.cell, Cell.text.injEq, Column.known.injEq, injective]
  | foreign text =>
    -- A foreign text is not the name of a status.
    have unnamed : text ≠ status.name := by
      rintro rfl
      have unnamed := proper _ column
      rw [Status.ofName?_name] at unnamed
      cases unnamed
    simp [Column.cell, unnamed]

theorem Row.isUnfinished_cells {row : Row} (proper : row.status.Proper Status.ofName?) :
    row.cells.isUnfinished = row.isUnfinished := by
  rw [Bool.eq_iff_iff, Row.isUnfinished_iff, ← Row.status_cells proper, ← Row.status_cells proper]
  simp [TaskCells.isUnfinished]

namespace Store

variable {s : Store}

theorem row?_database (s : Store) (id : String) : s.database.row? id = (s.row? id).map Row.cells := by
  have same : ∀ rows : List Row,
      (rows.map Row.cells).find? (fun row => row.id == .text id) = (lookup rows id).map Row.cells := by
    intro rows
    rw [List.find?_map]
    congr 2
    funext row
    rw [Bool.eq_iff_iff]
    simp [Row.cells]
  unfold Database.row? Store.database row? taskRows
  cases s.rows? with
  | none => rfl
  | some rows => exact same rows

theorem get_database (proper : s.Proper) (id : String) : s.database.get id = s.get id := by
  cases table : s.rows? with
  | none => simp [Database.get, Store.database, table, Store.get, Store.rows, bind, Except.bind]
  | some rows =>
    have some' : s.database.tasks? = some (rows.map Row.cells) := by rw [Store.database, table]; rfl
    have ok : s.rows = .ok rows := by rw [Store.rows, table]
    rw [Database.get, some', row?_database, Store.get_eq, ok, ← rows_eq_ok ok]
    show _ = (s.row? id).elim _ _
    cases found : s.row? id with
    | none => rfl
    | some row =>
      have proper := proper.rows row (mem_of_row? found)
      exact Row.record_cells proper

theorem perm_inOrder (marks : List Mark) : (inOrder marks).Perm marks := List.mergeSort_perm _ _

theorem sorted_inOrder (marks : List Mark) : (inOrder marks).Pairwise fun a b =>
    a.timestamp < b.timestamp ∨ a.timestamp = b.timestamp ∧ a.id ≤ b.id := by
  have sorted := @List.pairwise_mergeSort _
    (fun a b : Mark => a.timestamp < b.timestamp || (a.timestamp == b.timestamp && a.id ≤ b.id))
    (fun a b c hab hbc => by simp only [Bool.or_eq_true, Bool.and_eq_true, decide_eq_true_eq, beq_iff_eq] at *; omega)
    (fun a b => by simp only [Bool.or_eq_true, Bool.and_eq_true, decide_eq_true_eq, beq_iff_eq]; omega) marks
  exact sorted.imp fun h => by
    simpa only [Bool.or_eq_true, Bool.and_eq_true, decide_eq_true_eq, beq_iff_eq] using h

theorem lists_database (proper : s.Proper) (status : Option Status) (limit : Nat) :
    s.database.Lists status limit (s.list status limit) := by
  unfold Database.Lists Store.database list Store.rows
  have proper := proper.rows
  cases table : s.rows? with
  | none => rfl
  | some rows =>
    rw [table] at proper
    have each : ∀ r ∈ rows, r.cells.record = r.record := fun r hr => Row.record_cells (proper r hr)
    refine Query.answers_map each ?_ ?_ (limited_map Row.cells limit _) fun r => mem_of_limited
    · cases status with
      | none => exact (perm_newestFirst rows).trans (List.Perm.of_eq (List.filter_true rows).symm)
      | some status =>
        refine (perm_newestFirst _).trans (List.Perm.of_eq (List.filter_congr fun r hr => ?_))
        rw [Bool.eq_iff_iff]
        simp [Query.tasks, Row.status_cells (proper r hr)]
    · exact (List.pairwise_map.mp (sorted_newestFirst _)).imp fun h => (Cell.key_integer _ _).mpr h

theorem listsPending_database (proper : s.Proper) : s.database.ListsPending s.listPending := by
  unfold Database.ListsPending Store.database listPending Store.rows
  have proper := proper.rows
  cases table : s.rows? with
  | none => rfl
  | some rows =>
    rw [table] at proper
    have each : ∀ r ∈ rows, r.cells.record = r.record := fun r hr => Row.record_cells (proper r hr)
    refine Query.answers_map each ?_ ?_ rfl fun r hr => hr
    · refine (perm_oldestFirst _).trans (List.Perm.of_eq (List.filter_congr fun r hr => ?_))
      exact (Row.isUnfinished_cells (proper r hr)).symm
    · exact (List.pairwise_map.mp (sorted_oldestFirst _)).imp fun h => (Cell.key_integer _ _).mpr h

theorem trails_database (proper : s.Proper) (id : String) (limit : Nat) :
    s.database.Trails id limit (s.eventsFor id limit) := by
  unfold Database.Trails Store.database eventsFor Store.marks
  have proper := proper.marks
  cases table : s.marks? with
  | none => rfl
  | some marks =>
    rw [table] at proper
    have each : ∀ m ∈ marks, m.cells.entry = m.entry := fun m hm => Mark.entry_cells (proper m hm)
    refine Query.answers_map each ?_ ?_ (limited_map Mark.cells limit _) fun m => mem_of_limited
    · refine (perm_inOrder _).trans (List.Perm.of_eq (List.filter_congr fun m _ => ?_))
      rw [Bool.eq_iff_iff]
      simp [Query.trail, Mark.cells]
    · refine (sorted_inOrder _).imp fun {a b} h => ?_
      simp only [Query.trail, Mark.cells, Prod.Lex.toLex_le_toLex, lt_iff_le_and_ne, ne_eq, Cell.key_integer,
        Cell.key_integer_inj]
      omega

end Store

end Courier
