/-
# Courier.Proofs.Storage.Destinations -- where an output and its part are

A destination that is accepted has a last name, and that name decides where the output goes and where its
part is kept meanwhile: both are in one directory below the base, under two names, the second one with
`.part` at its end. What the text of a path has in it besides names (slashes, dots, a slash at the end)
makes no difference to that.
-/
import Courier.Storage.Local
import Courier.Proofs.Files.Segments

namespace Courier.Storage

/-! ## Names of parts -/

/-- No name of a part is short enough to stand for a directory. -/
theorem partName_ne (name : String) {short : String} (h : short.length ≤ 2) : name ++ ".part" ≠ short := by
  rintro rfl
  rw [String.length_append] at h
  exact absurd (Nat.le_trans (Nat.le_add_left _ _) h) (by decide)

theorem isIdle_partName (name : String) : Path.isIdle (name ++ ".part") = false := by
  have dot : name ++ ".part" ≠ "." := partName_ne name (by decide)
  simp [Path.isIdle, dot]

/-! ## Destinations below a base -/

/-- What an accepted destination says: the directories below the base that it goes through, and its last
name. Segments that say nothing may stand anywhere. -/
structure Accepted (base target : Path) (inner : List String) (name : String) : Prop where
  ends : ∃ before tail, target.Ends before name tail ∧ Path.walk [] before = base.place ++ inner
  plain : '/' ∉ name.toList
  /-- What never leads back below a base that never leads back never leads back itself. -/
  down : ".." ∉ base.segments → ".." ∉ target.segments

/-- What a path below another one adds to it, and what it stands behind. -/
theorem join_segments (base : Path) {p : Path} (relative : p.isAbsolute = false) :
    ∃ front, (base.join p).segments = front ++ p.segments ∧ Path.said front = Path.said base.segments := by
  unfold Path.join
  rw [if_neg (by simp [relative])]
  split_ifs with none_ slash
  · exact ⟨[], rfl, by rw [none_]; rfl⟩
  · refine ⟨_, rfl, ?_⟩
    obtain ⟨front, segments⟩ := List.getLast?_eq_some_iff.mp slash
    have empty : Path.said [""] = [] := rfl
    rw [segments, List.dropLast_concat, Path.said_append, empty, List.append_nil]
  · exact ⟨_, rfl, rfl⟩

theorem resolve_eq_ok {base target : Path} {destination : String}
    (accepted : resolve base destination = .ok target) :
    ∃ inner name, (Path.ofText destination).names = inner ++ [name] ∧ ".." ∉ inner ++ [name] ∧
      Accepted base target inner name := by
  unfold resolve at accepted
  simp only at accepted
  split_ifs at accepted with escapes nameless
  cases accepted
  rw [Bool.or_eq_true, not_or, Bool.not_eq_true, List.contains_iff_mem] at escapes
  obtain ⟨relative, down⟩ := escapes
  obtain ⟨before, name, tail, ends⟩ := Path.exists_ends (by simpa using nameless) down
  obtain ⟨front, segments, said⟩ := join_segments base relative
  refine ⟨Path.said before, name, ends.said_eq, ?_,
    ⟨front ++ before, tail, ⟨?_, ends.named, ends.down, ends.idle⟩, ?_⟩, ?_, ?_⟩
  · rw [← ends.said_eq]
    exact fun mem => down (List.mem_filter.mp mem).1
  · rw [segments, ends.segments, List.append_assoc]
  · rw [Path.walk_append, ← Path.walk_said [] front, said, Path.walk_said, Path.walk_of_notMem]
    · rfl
    · exact fun mem => down (by rw [ends.segments]; exact List.mem_append_left _ mem)
  · have named : name ∈ (Path.ofText destination).segments := by
      rw [ends.segments]
      simp
    exact Path.notMem_slash_of_mem_segments named
  · intro downBase mem
    rw [segments, List.mem_append] at mem
    rcases mem with mem | mem
    · exact downBase (Path.mem_said.mp (said ▸ Path.mem_said.mpr ⟨mem, rfl⟩)).1
    · exact down mem

namespace Accepted

variable {base target : Path} {inner : List String} {name : String}

theorem place (h : Accepted base target inner name) : target.place = base.place ++ inner ++ [name] := by
  obtain ⟨before, tail, ends, walked⟩ := h.ends
  rw [ends.place, walked]

theorem plain_part (h : Accepted base target inner name) : '/' ∉ (name ++ ".part").toList := by
  rw [String.toList_append, List.mem_append, not_or]
  exact ⟨h.plain, by decide⟩

/-- The part has the segments in front of it that the destination has, and a name of its own. -/
theorem part (h : Accepted base target inner name) :
    ∃ front, (partPath target).segments = front ++ [name ++ ".part"] ∧
      Path.walk [] front = base.place ++ inner := by
  obtain ⟨before, tail, ends, walked⟩ := h.ends
  obtain ⟨front, segments, said⟩ := ends.withLastName h.plain_part
  refine ⟨front, ?_, ?_⟩
  · rw [partPath, ends.lastName?]
    exact segments
  · rw [← Path.walk_said, said, Path.walk_said, walked]

theorem partPlace (h : Accepted base target inner name) :
    (partPath target).place = base.place ++ inner ++ [name ++ ".part"] := by
  obtain ⟨front, segments, walked⟩ := h.part
  rw [Path.place, segments, Path.walk_append, walked, Path.walk, if_neg (by simp [isIdle_partName]),
    if_neg (partName_ne name (by decide))]
  rfl

/-- A destination and its part are two names in one directory. -/
theorem apart (h : Accepted base target inner name) : (partPath target).place ≠ target.place := by
  rw [h.partPlace, h.place]
  simp

end Accepted

end Courier.Storage
