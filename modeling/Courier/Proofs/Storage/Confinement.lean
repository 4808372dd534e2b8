/-
# Courier.Proofs.Storage.Confinement -- outputs stay below the base directory

A destination is a text from outside, and what it names must lie below the base directory. Whether it does is
decided segment by segment, before anything is joined; the part gets its name by another rule, from the last name
of the joined path. Both are compared here with the *normal form* of a path, in which nothing is left that a name
could hide behind: no empty segments and no dots, and `..` only where there is no name for it to take away.

`resolve_confined` says which texts are accepted, that their paths and parts are the base followed by names, and
that nothing is touched for the others.
-/
import Courier.Proofs.Storage.Destinations

namespace Courier

namespace Path

/-! ## Normal forms -/

/-- Segments taken in behind names. A `..` takes the last name away; where there is none it stays, except at the
root, which is its own parent. -/
def simplified (absolute : Bool) : List String → List String → List String
  | names, [] => names
  | names, s :: rest =>
    if isIdle s then simplified absolute names rest
    else if s = ".." then
      match names.getLast? with
      | none => simplified absolute (if absolute then [] else [".."]) rest
      | some last => simplified absolute (if last = ".." then names ++ [".."] else names.dropLast) rest
    else simplified absolute (names ++ [s]) rest

/-- The names of a path in normal form. -/
def normal (p : Path) : List String := simplified p.isAbsolute [] p.segments

/-- A path is strictly below another one: it is that one in normal form, with some names behind it that never lead
back. -/
def IsBelow (p base : Path) : Prop :=
  p.isAbsolute = base.isAbsolute ∧ ∃ names, names ≠ [] ∧ ".." ∉ names ∧ p.normal = base.normal ++ names

theorem simplified_append (absolute : Bool) (names a b : List String) :
    simplified absolute names (a ++ b) = simplified absolute (simplified absolute names a) b := by
  induction a generalizing names with
  | nil => rfl
  | cons s rest ih =>
    simp only [List.cons_append, simplified]
    split
    · exact ih _
    · split
      · split
        · exact ih _
        · exact ih _
      · exact ih _

/-- The normal form depends on the segments alone that say something. -/
theorem simplified_said (absolute : Bool) (names segments : List String) :
    simplified absolute names (said segments) = simplified absolute names segments := by
  induction segments generalizing names with
  | nil => rfl
  | cons s rest ih =>
    cases idle : isIdle s with
    | true => rw [said_cons_of_idle idle, simplified, if_pos idle, ih]
    | false =>
      rw [said_cons_of_named idle]
      simp only [simplified, ih]

/-- Segments that never lead back are taken in as they are. -/
theorem simplified_of_notMem {segments : List String} (down : ".." ∉ segments) (absolute : Bool)
    (names : List String) : simplified absolute names segments = names ++ said segments := by
  induction segments generalizing names with
  | nil => simp [simplified, said]
  | cons s rest ih =>
    rw [List.mem_cons, not_or] at down
    cases idle : isIdle s with
    | true => rw [simplified, if_pos idle, said_cons_of_idle idle, ih down.2]
    | false =>
      rw [simplified, if_neg (by simp [idle]), if_neg (Ne.symm down.1), said_cons_of_named idle, ih down.2,
        List.append_assoc, List.singleton_append]

/-! ## Paths from the root -/

theorem isAbsolute_iff {p : Path} : p.isAbsolute = true ↔ p.segments.head? = some "" ∧ 1 < p.segments.length := by
  unfold isAbsolute
  split
  · simp [*]
  · rename_i other
    refine iff_of_false Bool.false_ne_true ?_
    rintro ⟨empty, more⟩
    match segments : p.segments with
    | [] => simp [segments] at empty
    | [_] => simp [segments] at more
    | s :: t :: rest =>
      obtain rfl : s = "" := by simpa [segments] using empty
      exact other t rest segments

/-- Whether a path starts at the root is decided by its first segments. -/
theorem isAbsolute_append {front : List String} (some_ : front ≠ []) (filled : front.getLast? ≠ some "")
    (rest : List String) : isAbsolute ⟨front ++ rest⟩ = isAbsolute ⟨front⟩ := by
  match front with
  | [] => exact absurd rfl some_
  | [s] =>
    have named : s ≠ "" := by simpa using filled
    rw [Bool.eq_iff_iff, isAbsolute_iff, isAbsolute_iff]
    simp [named]
  | _ :: _ :: _ =>
    rw [Bool.eq_iff_iff, isAbsolute_iff, isAbsolute_iff]
    simp

/-- What is joined behind a path starts where the path starts. -/
theorem isAbsolute_join (base : Path) {p : Path} (relative : p.isAbsolute = false) (some_ : p.segments ≠ []) :
    (base.join p).isAbsolute = base.isAbsolute := by
  unfold join
  rw [if_neg (by simp [relative])]
  split_ifs with none_ slash
  · rw [relative, none_]
    rfl
  · -- The slash at the end of the base is the one that separates the two.
    obtain ⟨front, segments⟩ := List.getLast?_eq_some_iff.mp slash
    have more : front ≠ [] := by
      rintro rfl
      exact none_ (congrArg Path.mk segments)
    obtain ⟨s, rest, found⟩ := List.exists_cons_of_ne_nil some_
    obtain ⟨first, others, rfl⟩ := List.exists_cons_of_ne_nil more
    rw [Bool.eq_iff_iff, isAbsolute_iff, isAbsolute_iff, segments, List.dropLast_concat, found]
    simp only [List.cons_append, List.head?_cons, List.length_cons, List.length_append]
    exact and_congr_right fun _ => by omega
  · by_cases empty : base.segments = []
    · rw [empty, List.nil_append, relative, isAbsolute, empty]
    · exact isAbsolute_append empty slash _

/-- The parent of a path starts where the path starts. -/
theorem isAbsolute_parent? {p parent : Path} (h : p.parent? = some parent) :
    parent.isAbsolute = p.isAbsolute := by
  have whole := append_idle p.segments
  unfold parent? at h
  split at h
  · cases h
  · rename_i name before cut
    rw [cut, List.reverse_cons, List.append_assoc] at whole
    split at h
    · split_ifs at h with absolute <;> cases h
      · exact absolute.symm
      · rw [Ends.isAbsolute_singleton, Bool.eq_false_iff.mpr absolute]
      · rw [nowhere, Ends.isAbsolute_singleton, Bool.eq_false_iff.mpr absolute]
    · rename_i more
      cases h
      -- The parent is a front of the path that ends with a name, so it holds the first segments.
      have some_ : (before.dropWhile isIdle).reverse ≠ [] := by
        intro none_
        exact more (List.reverse_eq_nil_iff.mp none_)
      have front := append_idle before.reverse
      rw [List.reverse_reverse] at front
      have last : (before.dropWhile isIdle).reverse.getLast? ≠ some "" := by
        rw [List.getLast?_reverse]
        intro empty
        obtain ⟨rest, cons⟩ := List.head?_eq_some_iff.mp empty
        exact absurd (isIdle_head_dropWhile cons) (by decide)
      rw [← isAbsolute_append some_ last, ← List.append_assoc, front, whole]

theorem Ends.normal {p : Path} {before tail : List String} {name : String} (h : p.Ends before name tail) :
    p.normal = simplified p.isAbsolute [] before ++ [name] := by
  rw [Path.normal, h.segments, simplified_append, simplified, if_neg (by simp [h.named]), if_neg h.down,
    ← simplified_said, said_of_idle h.idle, simplified]

/-- A name put in the place of the last one. -/
theorem Ends.normal_withLastName {p : Path} {before tail : List String} {name other : String}
    (h : p.Ends before name tail) (plain : '/' ∉ other.toList) (named : isIdle other = false)
    (down : other ≠ "..") :
    (p.withLastName other).isAbsolute = p.isAbsolute ∧
      (p.withLastName other).normal = simplified p.isAbsolute [] before ++ [other] := by
  obtain ⟨front, segments, said⟩ := h.withLastName plain
  have absolute : (p.withLastName other).isAbsolute = p.isAbsolute := by
    obtain ⟨parent, found, -⟩ := h.parent?
    unfold Path.withLastName
    rw [h.lastName?, found, ofText_of_notMem plain, ← isAbsolute_parent? found]
    exact isAbsolute_join parent (isAbsolute_singleton other) (List.cons_ne_nil _ _)
  refine ⟨absolute, ?_⟩
  rw [Path.normal, absolute, segments, simplified_append, ← simplified_said _ _ front, said, simplified_said,
    simplified, if_neg (by simp [named]), if_neg down, simplified]

/-- What is joined behind a path and never leads back adds its names. -/
theorem normal_join (base : Path) {p : Path} (relative : p.isAbsolute = false) (some_ : p.segments ≠ [])
    (down : ".." ∉ p.segments) : (base.join p).normal = base.normal ++ p.names := by
  obtain ⟨front, segments, said⟩ := Storage.join_segments base relative
  rw [normal, isAbsolute_join base relative some_, segments, simplified_append, simplified_of_notMem down,
    ← simplified_said _ _ front, said, simplified_said]
  rfl

end Path

namespace Storage

/-! ## Accepted texts -/

theorem isAbsolute_ofText (text : String) : (Path.ofText text).isAbsolute = true ↔ text.toList.head? = some '/' := by
  unfold Path.ofText
  rw [Path.isAbsolute_iff]
  cases text.toList with
  | nil => simp
  | cons c rest =>
    have some_ : rest.splitOn '/' ≠ [] := List.splitOn_ne_nil _ _
    obtain ⟨first, more, pieces⟩ := List.exists_cons_of_ne_nil some_
    rw [List.splitOn_cons_eq_if_modifyHead, pieces]
    by_cases slash : c = '/'
    · simp [slash]
    · simp [slash]

/-- Which texts are accepted, and which path they get. -/
theorem resolve_eq_ok_iff {base target : Path} {destination : String} :
    resolve base destination = .ok target ↔
      ((Path.ofText destination).isAbsolute = false ∧ ".." ∉ (Path.ofText destination).segments ∧
        (Path.ofText destination).names ≠ []) ∧ base.join (Path.ofText destination) = target := by
  unfold resolve
  simp only
  split_ifs with escapes nameless
  · rw [Bool.or_eq_true, List.contains_iff_mem] at escapes
    refine iff_of_false nofun fun h => ?_
    rcases escapes with absolute | back
    · rw [h.1.1] at absolute
      cases absolute
    · exact h.1.2.1 back
  · exact iff_of_false nofun fun h => h.1.2.2 (List.isEmpty_iff.mp nameless)
  · rw [Bool.or_eq_true, not_or, Bool.not_eq_true, List.contains_iff_mem] at escapes
    rw [Except.ok.injEq]
    exact (and_iff_right ⟨escapes.1, escapes.2, by simpa using nameless⟩).symm

/-- Of a destination that is not accepted, the failure says so and nothing is looked up. -/
theorem refused_of_resolve {base : Path} {destination : String} {e : Problem}
    (refused : resolve base destination = .error e) :
    e.failure.kind = .invalidPayload ∧ (∀ v stream, put base v stream destination = (.error e, v)) ∧
      ∀ v, rollback base v destination = (.error e, v) := by
  refine ⟨?_, fun v stream => ?_, fun v => ?_⟩
  · unfold resolve at refused
    simp only at refused
    split_ifs at refused <;> cases refused <;> rfl
  · unfold put
    rw [refused]
  · unfold rollback
    rw [refused]

/-- A destination and its part in normal form: they differ in the last name. -/
theorem Accepted.normal_partPath {base target : Path} {inner : List String} {name : String}
    (h : Accepted base target inner name) (normal : target.normal = base.normal ++ inner ++ [name]) :
    (partPath target).isAbsolute = target.isAbsolute ∧
      (partPath target).normal = base.normal ++ inner ++ [name ++ ".part"] := by
  obtain ⟨before, tail, ends, -⟩ := h.ends
  obtain ⟨absolute, part⟩ :=
    ends.normal_withLastName h.plain_part (isIdle_partName name) (partName_ne name (by decide))
  rw [partPath, ends.lastName?, Option.getD_some]
  refine ⟨absolute, part.trans ?_⟩
  rw [ends.normal] at normal
  rw [(List.append_inj' normal rfl).1]

/-- A destination is accepted if and only if it does not start with a slash, no segment of it leads back, and some
segment says something. Its path then is the base with the segments behind it that say something, and nothing else:
the path and its part are strictly below the base, and they are different. Any other destination is an invalid
payload, and neither a transfer to it nor its rollback changes anything. -/
theorem resolve_confined (base : Path) (destination : String) :
    ((∃ target, resolve base destination = .ok target) ↔
      destination.toList.head? ≠ some '/' ∧ ".." ∉ (Path.ofText destination).segments ∧
        ∃ s ∈ (Path.ofText destination).segments, s ≠ "" ∧ s ≠ ".") ∧
    (∀ target, resolve base destination = .ok target →
      target.isAbsolute = base.isAbsolute ∧
      target.normal = base.normal ++ (Path.ofText destination).segments.filter (fun s => s ≠ "" ∧ s ≠ ".") ∧
      target.IsBelow base ∧ (partPath target).IsBelow base ∧ (partPath target).normal ≠ target.normal) ∧
    ∀ e, resolve base destination = .error e →
      e.failure.kind = .invalidPayload ∧ (∀ v stream, put base v stream destination = (.error e, v)) ∧
        ∀ v, rollback base v destination = (.error e, v) := by
  have idle (s : String) : Path.isIdle s = false ↔ s ≠ "" ∧ s ≠ "." := by simp [Path.isIdle]
  have names : (Path.ofText destination).names =
      (Path.ofText destination).segments.filter (fun s => s ≠ "" ∧ s ≠ ".") :=
    List.filter_congr fun s _ => by rw [Bool.eq_iff_iff, Bool.not_eq_true', idle, decide_eq_true_iff]
  refine ⟨?_, fun target accepted => ?_, fun e => refused_of_resolve⟩
  · simp only [resolve_eq_ok_iff, exists_and_left, exists_eq', and_true]
    refine and_congr ?_ (and_congr_right fun _ => ?_)
    · rw [← Bool.not_eq_true, isAbsolute_ofText]
    · rw [ne_eq, Path.names, List.filter_eq_nil_iff]
      simp [idle]
  · obtain ⟨⟨relative, down, some_⟩, rfl⟩ := resolve_eq_ok_iff.mp accepted
    obtain ⟨inner, name, split_, downNames, below⟩ := resolve_eq_ok accepted
    have segments : (Path.ofText destination).segments ≠ [] := fun none_ => some_ (by rw [Path.names, none_]; rfl)
    have absolute := Path.isAbsolute_join base relative segments
    have normal := Path.normal_join base relative segments down
    obtain ⟨partAbsolute, part⟩ := below.normal_partPath (by rw [normal, split_, List.append_assoc])
    -- The part has the same names but the last, and no name turns into `..` with `.part` behind it.
    have downPart : ".." ∉ inner ++ [name ++ ".part"] := by
      rw [List.mem_append, List.mem_singleton, not_or] at downNames ⊢
      exact ⟨downNames.1, (partName_ne name (by decide)).symm⟩
    refine ⟨absolute, names ▸ normal, ?_, ?_, ?_⟩
    · exact ⟨absolute, _, some_, split_ ▸ downNames, normal⟩
    · exact ⟨partAbsolute.trans absolute, _, by simp, downPart, part.trans (List.append_assoc ..)⟩
    · rw [part, normal, split_, ← List.append_assoc]
      simp

/-- Dots and slashes do not hide a name, and dots in a name are nothing special. -/
example : (resolve (.ofText "/base") "./a//..b/." |>.toOption.map Path.normal) = some ["base", "a", "..b"] := by
  decide +kernel

end Storage

end Courier
