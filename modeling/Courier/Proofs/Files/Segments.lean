/-
# Courier.Proofs.Files.Segments -- what a path says

Of the segments of a path some say nothing: empty ones, and those of one dot. Where a path leads depends
on the others alone. A path with a name in it is cut at its last name: what stands before it leads to the
directory of the name, and so does the parent of the path.
-/
import Courier.Proofs.Files.Effects

namespace Courier.Path

/-! ## Texts cut at slashes -/

theorem notMem_of_mem_splitOn {α : Type} [BEq α] [LawfulBEq α] {a : α} (xs : List α) :
    ∀ piece ∈ xs.splitOn a, a ∉ piece := by
  induction xs with
  | nil => simp
  | cons x xs ih =>
    intro piece hpiece
    rw [List.splitOn_cons_eq_if_modifyHead] at hpiece
    split at hpiece
    · rcases List.mem_cons.mp hpiece with rfl | later
      · exact List.not_mem_nil
      · exact ih piece later
    · rename_i other
      cases pieces : xs.splitOn a with
      | nil => exact absurd pieces (List.splitOn_ne_nil _ _)
      | cons first rest =>
        rw [pieces] at hpiece ih
        rcases List.mem_cons.mp hpiece with rfl | later
        · have apart : a ≠ x := fun same => other (by simp [same])
          exact fun mem => (List.mem_cons.mp mem).elim apart (ih first List.mem_cons_self)
        · exact ih piece (List.mem_cons_of_mem _ later)

/-- No segment of a path has a slash in it. -/
theorem notMem_slash_of_mem_segments {text s : String} (h : s ∈ (ofText text).segments) :
    '/' ∉ s.toList := by
  obtain ⟨piece, hpiece, rfl⟩ := List.mem_map.mp h
  simpa using notMem_of_mem_splitOn _ piece hpiece

/-- A text without a slash is one segment. -/
theorem ofText_of_notMem {s : String} (h : '/' ∉ s.toList) : ofText s = ⟨[s]⟩ := by
  unfold ofText
  rw [List.splitOn_eq_singleton h]
  simp

/-! ## Segments that say something -/

/-- The segments that say something, in a row of segments. -/
def said (segments : List String) : List String := segments.filter fun s => !isIdle s

theorem said_cons_of_idle {s : String} (idle : isIdle s = true) (rest : List String) :
    said (s :: rest) = said rest := List.filter_cons_of_neg (by simp [idle])

theorem said_cons_of_named {s : String} (named : isIdle s = false) (rest : List String) :
    said (s :: rest) = s :: said rest := List.filter_cons_of_pos (by simp [named])

theorem said_append (a b : List String) : said (a ++ b) = said a ++ said b := List.filter_append ..

theorem said_of_idle {segments : List String} (idle : ∀ s ∈ segments, isIdle s = true) :
    said segments = [] := by
  rw [said, List.filter_eq_nil_iff]
  intro s hs
  simp [idle s hs]

/-- A path leads where the segments that say something lead. -/
theorem walk_said (dir : Location) (segments : List String) : walk dir (said segments) = walk dir segments := by
  induction segments generalizing dir with
  | nil => rfl
  | cons s rest ih =>
    cases idle : isIdle s with
    | true => rw [said_cons_of_idle idle, walk, if_pos idle, ih]
    | false =>
      rw [said_cons_of_named idle]
      simp only [walk, ih]

/-- Segments that never lead back to a parent lead down by their names. -/
theorem walk_of_notMem {segments : List String} (down : ".." ∉ segments) (dir : Location) :
    walk dir segments = dir ++ said segments := by
  induction segments generalizing dir with
  | nil => simp [walk, said]
  | cons s rest ih =>
    rw [List.mem_cons, not_or] at down
    cases idle : isIdle s with
    | true => rw [walk, if_pos idle, said_cons_of_idle idle, ih down.2]
    | false =>
      rw [walk, if_neg (by simp [idle]), if_neg (Ne.symm down.1), said_cons_of_named idle, ih down.2,
        List.append_assoc, List.singleton_append]

/-- Segments, and those at their end that say nothing. -/
theorem append_idle (segments : List String) :
    (segments.reverse.dropWhile isIdle).reverse ++ (segments.reverse.takeWhile isIdle).reverse = segments := by
  rw [← List.reverse_append, List.takeWhile_append_dropWhile, List.reverse_reverse]

theorem isIdle_of_mem_takeWhile {segments : List String} :
    ∀ s ∈ (segments.reverse.takeWhile isIdle).reverse, isIdle s = true :=
  fun _ hs => List.mem_takeWhile_imp (List.mem_reverse.mp hs)

theorem isIdle_head_dropWhile {segments rest : List String} {s : String}
    (h : segments.dropWhile isIdle = s :: rest) : isIdle s = false := by
  have filled := List.head_dropWhile_not isIdle (l := segments) (by rw [h]; exact List.cons_ne_nil _ _)
  simpa only [h, List.head_cons] using filled

/-- A path ends in a name: what stands before it, the name, and what says nothing behind it. -/
structure Ends (p : Path) (before : List String) (name : String) (tail : List String) : Prop where
  segments : p.segments = before ++ name :: tail
  named : isIdle name = false
  down : name ≠ ".."
  idle : ∀ s ∈ tail, isIdle s = true

theorem exists_ends {p : Path} (named : p.names ≠ []) (down : ".." ∉ p.segments) :
    ∃ before name tail, p.Ends before name tail := by
  have whole := append_idle p.segments
  cases rest : p.segments.reverse.dropWhile isIdle with
  | nil =>
    refine absurd (said_of_idle fun s hs => ?_) named
    exact List.dropWhile_eq_nil_iff.mp rest s (List.mem_reverse.mpr hs)
  | cons name before =>
    rw [rest, List.reverse_cons, List.append_assoc, List.singleton_append] at whole
    refine ⟨_, name, _, whole.symm, isIdle_head_dropWhile rest, ?_, isIdle_of_mem_takeWhile⟩
    rintro rfl
    exact down (whole ▸ by simp)

namespace Ends

variable {p : Path} {before tail : List String} {name : String}

theorem said_eq (h : p.Ends before name tail) : said p.segments = said before ++ [name] := by
  rw [h.segments, said_append, said_cons_of_named h.named, said_of_idle h.idle]

theorem place (h : p.Ends before name tail) : p.place = walk [] before ++ [name] := by
  rw [Path.place, h.segments, walk_append, walk, if_neg (by simp [h.named]), if_neg h.down,
    walk_idle h.idle]

theorem lastName? (h : p.Ends before name tail) : p.lastName? = some name := by
  have last : p.names.getLast? = some name := by
    rw [show p.names = said before ++ [name] from h.said_eq, List.getLast?_concat]
  unfold Path.lastName?
  rw [last]
  split
  · exact absurd (Option.some.inj ‹_›) h.down
  · rfl

/-- Whatever stands in front of a name leads to its parent. -/
theorem parent? (h : p.Ends before name tail) :
    ∃ parent, p.parent? = some parent ∧ said parent.segments = said before ∧
      (parent = nowhere ∨ parent = root ∨ parent.segments.getLast? ≠ some "") := by
  have rest : p.segments.reverse.dropWhile isIdle = name :: before.reverse := by
    rw [h.segments, List.reverse_append, List.reverse_cons, List.append_assoc,
      List.dropWhile_append_of_pos fun s hs => h.idle s (List.mem_reverse.mp hs)]
    exact List.dropWhile_cons_of_neg (by simp [h.named])
  have front := congrArg said (append_idle before)
  rw [said_append, said_of_idle isIdle_of_mem_takeWhile, List.append_nil] at front
  unfold Path.parent?
  rw [rest, ← front]
  simp only
  cases kept : before.reverse.dropWhile isIdle with
  | nil =>
    refine ⟨_, rfl, ?_, ?_⟩
    · split_ifs <;> rfl
    · split_ifs
      · exact .inr (.inl rfl)
      · exact .inr (.inr (by simp))
      · exact .inl rfl
  | cons last others =>
    refine ⟨_, rfl, rfl, .inr (.inr ?_)⟩
    have filled := isIdle_head_dropWhile kept
    rw [List.reverse_cons, List.getLast?_concat]
    rintro same
    rw [Option.some.inj same] at filled
    cases filled

theorem isAbsolute_singleton (s : String) : isAbsolute ⟨[s]⟩ = false := by
  simp [isAbsolute]

/-- A name put in the place of the last one has the same segments in front of it. -/
theorem withLastName (h : p.Ends before name tail) {other : String} (plain : '/' ∉ other.toList) :
    ∃ front, (p.withLastName other).segments = front ++ [other] ∧ said front = said before := by
  obtain ⟨parent, found, front, shape⟩ := h.parent?
  unfold Path.withLastName
  rw [h.lastName?, found, ofText_of_notMem plain]
  simp only [join, isAbsolute_singleton, Bool.false_eq_true, if_false]
  rcases shape with rfl | rfl | filled
  · exact ⟨[], rfl, front⟩
  · exact ⟨[""], rfl, front⟩
  · refine ⟨parent.segments, ?_, front⟩
    rw [if_neg, if_neg filled]
    rintro rfl
    exact filled rfl

end Ends

theorem mem_said {segments : List String} {s : String} : s ∈ said segments ↔ s ∈ segments ∧ isIdle s = false := by
  simp [said]

/-- The parent of a path that never leads back is one name shorter. -/
theorem place_of_parent? {p parent : Path} (down : ".." ∉ p.segments) (h : p.parent? = some parent) :
    ".." ∉ parent.segments ∧ ∃ name, p.place = parent.place ++ [name] := by
  have named : p.names ≠ [] := by
    intro nameless
    have rest : p.segments.reverse.dropWhile isIdle = [] := by
      refine List.dropWhile_eq_nil_iff.mpr fun s hs => ?_
      have none_ := List.filter_eq_nil_iff.mp nameless s (List.mem_reverse.mp hs)
      simpa using none_
    unfold parent? at h
    rw [rest] at h
    cases h
  obtain ⟨before, name, tail, ends⟩ := exists_ends named down
  obtain ⟨parent', found, front, -⟩ := ends.parent?
  obtain rfl := Option.some.inj (h.symm.trans found)
  have downBefore : ".." ∉ before := fun mem => down (ends.segments ▸ List.mem_append_left _ mem)
  refine ⟨fun mem => downBefore ?_, name, ?_⟩
  · exact (mem_said.mp (front ▸ mem_said.mpr ⟨mem, rfl⟩)).1
  · rw [ends.place, ← walk_said, ← front, walk_said]
    rfl

end Courier.Path
