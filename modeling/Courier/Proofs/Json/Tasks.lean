/-
# Courier.Proofs.Json.Tasks -- tasks and their entries read back from their texts

The record of a task is read back from its text as it was, for every text, payload and time in it
(`Record.read_text`). An entry of the audit trail is read back too, except that its details may be left out: an entry
without details is written with the details `null`, and so is one whose details are the value `null`. The two have the
same text, which is read as no details (`Entry.read_text`). `texts_round_trip_iff` says what follows: of all entries
just those whose details are `null` do not come back, while what does come back always has the text that was read.

The store keeps the two apart, since a row has a place for details that are not there.
-/
import Courier.Proofs.Json.Records
import Courier.Task.Event
import Courier.Task.Record

namespace Courier

/-- An integer of sixty-four bits, one of them for the sign. -/
def IsInt64 (z : Int) : Prop := -(twoTo 63 : Nat) ≤ z ∧ z < (twoTo 63 : Nat)

instance (z : Int) : Decidable (IsInt64 z) := inferInstanceAs (Decidable (_ ∧ _))

namespace Json

theorem whole_int64 {z : Int} (h : IsInt64 z) : Whole (.int z) := by
  have half : twoTo 63 < twoTo 64 := by decide
  exact .int h.1 (by have := h.2; omega)

/-- An integer that may be left out is read back from its text. -/
theorem optionalInt_chars {x : Option Int} (h : ∀ z ∈ x, IsInt64 z) {rest : Bytes} (ends : Ends rest) :
    optional int64 (Utf8.octets (Record.optionalInt x).chars ++ rest) = .ok (x, rest) := by
  cases x with
  | none => exact optional_null int64 rest
  | some z =>
    have range := h z rfl
    rw [Record.optionalInt, optional_chars int64 (whole_int64 range) nofun, int64_chars range.1 range.2 ends]
    rfl

end Json

/-! ## Tasks -/

namespace Record

/-- The times of a record have sixty-four bits. -/
structure Timed (r : Record) : Prop where
  created : IsInt64 r.createdAt
  updated : IsInt64 r.updatedAt
  completed : ∀ z ∈ r.completedAt, IsInt64 z

/-- The part of a record that is set when all members of its text have been read. -/
def filled (r : Record) : Part :=
  ⟨some r.id, some r.title, some r.kind, some r.payload, some r.status, some r.createdAt, some r.updatedAt,
    some r.completedAt, some r.error⟩

theorem fills {r : Record} (timed : r.Timed) : ∃ ms, r.toJson = .obj ms ∧ shape.Fills {} ms r.filled := by
  refine ⟨_, rfl, ?_⟩
  refine .set (fun p x => { p with id := some x }) rfl rfl (fun _ => rfl)
    (fun rest _ => Json.string_chars r.id rest) ?_
  refine .set (fun p x => { p with title := some x }) rfl rfl (fun _ => rfl)
    (fun rest _ => Json.string_chars r.title rest) ?_
  refine .set (fun p x => { p with kind := some x }) rfl rfl (fun _ => rfl)
    (fun rest _ => Json.string_chars r.kind rest) ?_
  refine .set (fun p x => { p with payload := some x }) rfl rfl (fun _ => rfl)
    (fun rest _ => Json.bytes_chars r.payload rest) ?_
  refine .set (fun p x => { p with status := some x }) rfl rfl (fun _ => rfl)
    (fun rest _ => Json.oneName_chars (Status.ofName?_name r.status) _ rest) ?_
  refine .set (fun p x => { p with createdAt := some x }) rfl rfl (fun _ => rfl)
    (fun rest ends => Json.int64_chars timed.created.1 timed.created.2 ends) ?_
  refine .set (fun p x => { p with updatedAt := some x }) rfl rfl (fun _ => rfl)
    (fun rest ends => Json.int64_chars timed.updated.1 timed.updated.2 ends) ?_
  refine .set (fun p x => { p with completedAt := some x }) rfl rfl (fun _ => rfl)
    (fun rest ends => Json.optionalInt_chars timed.completed ends) ?_
  refine .set (fun p x => { p with error := some x }) rfl rfl (fun _ => rfl)
    (fun rest _ => Json.string_chars r.error rest) ?_
  exact .nil _

/-- A record comes back from its text as it was. -/
theorem read_text {r : Record} (timed : r.Timed) : read (Utf8.encode r.toJson.text) = .ok r := by
  obtain ⟨ms, json, fills⟩ := fills timed
  rw [read, json, fills.readAll_text rfl]
  rfl

end Record

/-! ## Entries of the audit trail -/

namespace Entry

/-- The id and the time of an entry have sixty-four bits. -/
structure Timed (e : Entry) : Prop where
  id : ∀ z ∈ e.id, IsInt64 z
  timestamp : IsInt64 e.timestamp

/-- The entry, with details that are `null` left out. -/
def withoutNull (e : Entry) : Entry :=
  { e with
    details := match e.details with
      | some .null => none
      | details => details }

theorem withoutNull_of_null {e : Entry} (null : e.details = some .null) :
    e.withoutNull = { e with details := none } := by
  rw [withoutNull, null]

theorem withoutNull_of_ne {e : Entry} (other : e.details ≠ some .null) : e.withoutNull = e := by
  unfold withoutNull
  split
  · exact absurd ‹_› other
  · rfl

/-- Details that are `null` and no details at all are written alike. -/
theorem toJson_withoutNull (e : Entry) : e.withoutNull.toJson = e.toJson := by
  by_cases null : e.details = some .null
  · simp only [withoutNull_of_null null, toJson, null, Option.getD_none, Option.getD_some]
  · rw [withoutNull_of_ne null]

theorem withoutNull_eq_self_iff {e : Entry} : e.withoutNull = e ↔ e.details ≠ some .null := by
  refine ⟨fun same null => ?_, withoutNull_of_ne⟩
  rw [withoutNull_of_null null] at same
  have lost : (none : Option Json) = e.details := congrArg Entry.details same
  rw [null] at lost
  cases lost

/-- Details that have a place in an entry are read back, `null` as none at all. -/
theorem details_chars {e : Entry} (fits : ∀ j ∈ e.details, j.Whole ∧ j.depth < Json.maxDepth) {rest : Bytes}
    (ends : Json.Ends rest) :
    detailsReader (Utf8.octets (e.details.getD .null).chars ++ rest) = .ok (e.withoutNull.details, rest) := by
  by_cases null : e.details = some .null
  · rw [withoutNull_of_null null, null]
    exact Json.optional_null _ rest
  · rw [withoutNull_of_ne null]
    cases details : e.details with
    | none => exact Json.optional_null _ rest
    | some j =>
      obtain ⟨whole, shallow⟩ := fits j details
      have other : j ≠ .null := fun same => null (by rw [details, same])
      rw [Option.getD_some, detailsReader, Json.optional_chars _ whole other, whole.reads _ rest ends,
        if_pos (Nat.le_sub_one_of_lt shallow)]
      rfl

/-- The part of an entry that is set when all members of its text have been read. -/
def filled (e : Entry) : Part :=
  ⟨some e.id, some e.taskId, some e.type, some e.timestamp, some e.withoutNull.details⟩

theorem fills {e : Entry} (timed : e.Timed) (fits : ∀ j ∈ e.details, j.Whole ∧ j.depth < Json.maxDepth) :
    ∃ ms, e.toJson = .obj ms ∧ shape.Fills {} ms e.filled := by
  refine ⟨_, rfl, ?_⟩
  refine .set (fun p x => { p with id := some x }) rfl rfl (fun _ => rfl)
    (fun rest ends => Json.optionalInt_chars timed.id ends) ?_
  refine .set (fun p x => { p with taskId := some x }) rfl rfl (fun _ => rfl)
    (fun rest _ => Json.string_chars e.taskId rest) ?_
  refine .set (fun p x => { p with type := some x }) rfl rfl (fun _ => rfl)
    (fun rest _ => Json.oneName_chars (EventType.ofName?_name e.type) _ rest) ?_
  refine .set (fun p x => { p with timestamp := some x }) rfl rfl (fun _ => rfl)
    (fun rest ends => Json.int64_chars timed.timestamp.1 timed.timestamp.2 ends) ?_
  refine .set (fun p x => { p with details := some x }) rfl rfl (fun _ => rfl)
    (fun rest ends => details_chars fits ends) ?_
  exact .nil _

/-- An entry comes back from its text, except that details which are `null` are then absent. -/
theorem read_text {e : Entry} (timed : e.Timed) (fits : ∀ j ∈ e.details, j.Whole ∧ j.depth < Json.maxDepth) :
    read (Utf8.encode e.toJson.text) = .ok e.withoutNull := by
  obtain ⟨ms, json, fills⟩ := fills timed fits
  rw [read, json, fills.readAll_text rfl]
  rfl

end Entry

/-! ## Both -/

/-- The text of every record gives the record back. The text of an entry, whose details are absent or any value without
fractions for which an entry has room, gives an entry with the same text; this is the entry that was written if and only
if its details were not the value `null`, and else the one without details. -/
theorem texts_round_trip_iff (r : Record) (e : Entry) :
    (r.Timed → Record.read (Utf8.encode r.toJson.text) = .ok r) ∧
      (e.Timed → (∀ j ∈ e.details, j.Whole ∧ j.depth < Json.maxDepth) →
        ∃ x, Entry.read (Utf8.encode e.toJson.text) = .ok x ∧ x.toJson.text = e.toJson.text ∧
          (x = e ↔ e.details ≠ some .null) ∧ (e.details = some .null → x = { e with details := none })) := by
  refine ⟨Record.read_text, fun timed fits => ⟨e.withoutNull, Entry.read_text timed fits, ?_⟩⟩
  rw [Entry.toJson_withoutNull]
  exact ⟨rfl, Entry.withoutNull_eq_self_iff, Entry.withoutNull_of_null⟩

theorem texts_round_trip_of_failure :
    let r : Record := ⟨"t-1", "é\n\"", "http", [0, 255], .failed, -1, twoTo 63 - 1, some 0, "gone"⟩
    let e : Entry := ⟨some 7, "t-1", .failed, -5, some (.obj [("at", .arr [.int (-1), .null]), ("why", .str "\\")])⟩
    r.Timed ∧ e.Timed ∧ (∀ j ∈ e.details, j.Whole ∧ j.depth < Json.maxDepth) ∧
      Record.read (Utf8.encode r.toJson.text) = .ok r ∧ Entry.read (Utf8.encode e.toJson.text) = .ok e := by
  intro r e
  have record : r.Timed := ⟨by decide, by decide, fun z hz => by cases hz; decide⟩
  have entry : e.Timed := ⟨fun z hz => by cases hz; decide, by decide⟩
  have fits : ∀ j ∈ e.details, j.Whole ∧ j.depth < Json.maxDepth := by
    intro j hj
    cases hj
    refine ⟨.obj (fun m hm => ?_) (by decide), by decide⟩
    simp only [List.mem_cons, List.not_mem_nil, or_false] at hm
    rcases hm with rfl | rfl
    · refine .arr fun x hx => ?_
      simp only [List.mem_cons, List.not_mem_nil, or_false] at hx
      rcases hx with rfl | rfl
      · exact .int (by decide) (by decide)
      · exact .null
    · exact .str _
  obtain ⟨readRecord, readEntry⟩ := texts_round_trip_iff r e
  obtain ⟨x, read, -, same, -⟩ := readEntry entry fits
  rw [same.mpr nofun] at read
  exact ⟨record, entry, fits, readRecord record, read⟩

/-- An entry whose details are `null` has the text of the entry without details, and is read as that one. -/
theorem null_details_lost :
    let e : Entry := ⟨none, "t", .started, 5, some .null⟩
    let absent : Entry := { e with details := none }
    e.toJson.text = absent.toJson.text ∧ Entry.read (Utf8.encode e.toJson.text) = .ok absent ∧ absent ≠ e := by
  intro e absent
  have timed : e.Timed := ⟨nofun, by decide⟩
  have fits : ∀ j ∈ e.details, j.Whole ∧ j.depth < Json.maxDepth := by
    intro j hj
    cases hj
    exact ⟨.null, by decide⟩
  refine ⟨rfl, Entry.read_text timed fits, fun same => ?_⟩
  cases congrArg Entry.details same

end Courier
