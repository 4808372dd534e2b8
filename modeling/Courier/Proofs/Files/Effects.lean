/-
# Courier.Proofs.Files.Effects -- what a file operation changes

A path is looked up step by step, and every step may fail. If none does, the path leads to a place that can be read
off its text (`Path.place`), as no name here stands for another path. What an operation does to files then is a
matter of a few places: `file?` is the number of the content that a place names, and each operation that succeeds
says where the numbers and the contents have changed and that they are the same everywhere else.

`Volume.Sound` is what keeps files apart. No content has two names, and a new file gets a number that no name has.
-/
import Courier.Files.Volume
import Mathlib.Data.List.TakeWhile

namespace Courier

/-! ## Places -/

/-- Where segments lead from a directory, if every one of them can be followed. -/
def Path.walk : Location → List String → Location
  | dir, [] => dir
  | dir, s :: rest =>
    if isIdle s then walk dir rest
    else if s = ".." then walk dir.dropLast rest
    else walk (dir ++ [s]) rest

/-- The place that a path leads to from the root. -/
def Path.place (p : Path) : Location := walk [] p.segments

theorem Path.walk_append (dir : Location) (a b : List String) : walk dir (a ++ b) = walk (walk dir a) b := by
  induction a generalizing dir with
  | nil => rfl
  | cons s rest ih =>
    simp only [List.cons_append, walk]
    split
    · exact ih _
    · split
      · exact ih _
      · exact ih _

theorem Path.walk_idle {segments : List String} (h : ∀ s ∈ segments, isIdle s = true) (dir : Location) :
    walk dir segments = dir := by
  induction segments with
  | nil => rfl
  | cons s rest ih =>
    rw [walk, if_pos (h s List.mem_cons_self)]
    exact ih fun x hx => h x (List.mem_cons_of_mem _ hx)

namespace Volume

theorem descend_eq_ok {v : Volume} {dir l : Location} {segments : List String}
    (h : v.descend dir segments = .ok l) : l = Path.walk dir segments := by
  induction segments generalizing dir with
  | nil =>
    cases h
    rfl
  | cons s rest ih =>
    simp only [descend] at h
    simp only [Path.walk]
    split at h
    · rw [if_pos ‹_›]
      exact ih h
    · rw [if_neg ‹_›]
      split at h
      · rw [if_pos ‹_›]
        exact ih h
      · rw [if_neg ‹_›]
        split at h
        · exact ih h
        · cases h
        · cases h

/-- A path that ends in a name has slashes alone behind it. -/
theorem segments_of_ending {p : Path} {before : List String} {name : String} {slash : Bool}
    (h : ending p = (before, .name name slash)) :
    ∃ tail, p.segments = before ++ name :: tail ∧ Path.isIdle name = false ∧ name ≠ ".." ∧
      ∀ s ∈ tail, Path.isIdle s = true := by
  have split_ : p.segments =
      (p.segments.reverse.dropWhile (· == "")).reverse ++ (p.segments.reverse.takeWhile (· == "")).reverse := by
    rw [← List.reverse_append, List.takeWhile_append_dropWhile, List.reverse_reverse]
  have idle : ∀ s ∈ (p.segments.reverse.takeWhile (· == "")).reverse, Path.isIdle s = true := by
    intro s hs
    have empty := List.mem_takeWhile_imp (List.mem_reverse.mp hs)
    rw [Path.isIdle, empty, Bool.true_or]
  unfold ending at h
  cases rest : p.segments.reverse.dropWhile (· == "") with
  | nil =>
    rw [rest] at h
    cases h
  | cons last kept =>
    have filled : (last == "") = false := by
      have := List.head_dropWhile_not (· == "") (l := p.segments.reverse) (by rw [rest]; exact List.cons_ne_nil _ _)
      simpa only [rest, List.head_cons] using this
    rw [rest] at h split_
    simp only at h
    split at h
    · cases h
    · rename_i plain
      cases h
      rw [List.reverse_cons, List.append_assoc, List.singleton_append] at split_
      refine ⟨_, split_, ?_, fun dots => plain (Or.inr dots), idle⟩
      rw [Path.isIdle, filled, Bool.false_or]
      exact beq_false_of_ne fun dot => plain (Or.inl dot)

theorem walk_ending {p : Path} {before : List String} {name : String} {slash : Bool}
    (h : ending p = (before, .name name slash)) : p.place = Path.walk [] before ++ [name] := by
  obtain ⟨tail, segments, named, down, idle⟩ := segments_of_ending h
  rw [Path.place, segments, Path.walk_append, Path.walk, if_neg (by simp [named]), if_neg down, Path.walk_idle idle]

theorem ending_of_locate {v : Volume} {p : Path} {dir : Location} {last : Ending}
    (h : v.locate [] p = .ok (dir, last)) :
    ∃ before, ending p = (before, last) ∧ v.descend [] before = .ok dir := by
  unfold locate at h
  split_ifs at h
  all_goals
    cases found : v.descend [] (ending p).1 with
    | error e =>
      simp only [found] at h
      cases h
    | ok l =>
      simp only [found] at h
      obtain ⟨rfl, rfl⟩ := Prod.mk.inj (Except.ok.inj h)
      exact ⟨_, rfl, found⟩

theorem place_of_locate {v : Volume} {p : Path} {dir : Location} {name : String} {slash : Bool}
    (h : v.locate [] p = .ok (dir, .name name slash)) : dir ++ [name] = p.place := by
  obtain ⟨before, last, followed⟩ := ending_of_locate h
  rw [walk_ending last, ← descend_eq_ok followed]

/-! ## Names -/

theorem lookup_filter_ne {α β : Type} [BEq α] [LawfulBEq α] [DecidableEq α] (xs : List (α × β)) {a x : α} (h : x ≠ a) :
    (xs.filter fun p => p.1 ≠ a).lookup x = xs.lookup x := by
  induction xs with
  | nil => rfl
  | cons p xs ih =>
    obtain ⟨y, b⟩ := p
    by_cases hy : y = a
    · have other : (x == y) = false := beq_false_of_ne (hy ▸ h)
      rw [List.filter_cons_of_neg (by simp [hy]), ih, List.lookup_cons, other]
    · rw [List.filter_cons_of_pos (by simp [hy]), List.lookup_cons, List.lookup_cons, ih]

theorem lookup_filter_self {α β : Type} [BEq α] [LawfulBEq α] [DecidableEq α] (xs : List (α × β)) (a : α) :
    (xs.filter fun p => p.1 ≠ a).lookup a = none := by
  rw [List.lookup_eq_none_iff]
  intro p hp
  have other : p.1 ≠ a := of_decide_eq_true (List.mem_filter.mp hp).2
  exact bne_iff_ne.mpr other.symm

/-- The number of the content of a file. -/
def file? (v : Volume) (l : Location) : Option Nat :=
  match v.get? l with
  | some (.file n) => some n
  | _ => none

theorem file?_eq_some {v : Volume} {l : Location} {n : Nat} : v.file? l = some n ↔ v.get? l = some (.file n) := by
  unfold file?
  split
  · rename_i m found
    rw [found, Option.some.injEq, Option.some.injEq, Node.file.injEq]
  · rename_i other
    exact iff_of_false nofun fun found => other n found

theorem contentAt?_eq (v : Volume) (l : Location) : v.contentAt? l = (v.file? l).map v.content := by
  unfold contentAt? file?
  cases v.get? l with
  | none => rfl
  | some node => cases node <;> rfl

theorem get?_set (v : Volume) {l : Location} (named : l ≠ []) (node : Node) (x : Location) :
    (v.set l node).get? x = if x = l then some node else v.get? x := by
  unfold get? Volume.set
  by_cases hx : x = l
  · subst hx
    simp [named]
  · rw [if_neg hx]
    have other : (x == l) = false := beq_false_of_ne hx
    simp only [List.lookup_cons, other, lookup_filter_ne v.nodes hx]

theorem get?_erase (v : Volume) {l : Location} (named : l ≠ []) (x : Location) :
    (v.erase l).get? x = if x = l then none else v.get? x := by
  unfold get? Volume.erase
  by_cases hx : x = l
  · subst hx
    rw [if_neg (by simpa using named), if_pos rfl, lookup_filter_self]
  · rw [if_neg hx, lookup_filter_ne v.nodes hx]

theorem file?_set (v : Volume) {l : Location} (named : l ≠ []) (node : Node) (x : Location) :
    (v.set l node).file? x = if x = l then (match node with | .file n => some n | .directory => none) else v.file? x := by
  unfold file?
  rw [get?_set v named]
  split_ifs with hx
  · cases node <;> rfl
  · rfl

theorem file?_erase (v : Volume) (l x : Location) :
    (v.erase l).file? x = if x = l then none else v.file? x := by
  unfold file? get? Volume.erase
  by_cases hx : x = l
  · subst hx
    rw [if_pos rfl, lookup_filter_self]
    split <;> simp_all
  · rw [if_neg hx, lookup_filter_ne v.nodes hx]

@[simp] theorem file?_setContent (v : Volume) (n : Nat) (c : Content) : (v.setContent n c).file? = v.file? := rfl

theorem content_setContent (v : Volume) (n : Nat) (c : Content) (m : Nat) :
    (v.setContent n c).content m = if m = n then c else v.content m := by
  unfold content setContent
  by_cases h : m = n
  · subst h
    simp
  · have other : (m == n) = false := beq_false_of_ne h
    simp only [List.lookup_cons, other, lookup_filter_ne v.contents h, if_neg h]

/-! ## Numbers -/

theorem lt_freshInode {v : Volume} {n : Nat} : n < v.freshInode ↔ ∃ p ∈ v.contents, n ≤ p.1 := by
  suffices every : ∀ (xs : List (Nat × Content)) (start : Nat),
      n < xs.foldl (fun n p => max n (p.1 + 1)) start ↔ n < start ∨ ∃ p ∈ xs, n ≤ p.1 by
    simpa [freshInode] using every v.contents 0
  intro xs
  induction xs with
  | nil => simp
  | cons x xs ih =>
    intro start
    rw [List.foldl_cons, ih]
    have first : n < max start (x.1 + 1) ↔ n < start ∨ n ≤ x.1 := by omega
    simp only [List.mem_cons, exists_eq_or_imp, first, or_assoc]

theorem freshInode_setContent {v : Volume} {n m : Nat} (c : Content) (h : m < v.freshInode ∨ m = n) :
    m < (v.setContent n c).freshInode := by
  rw [lt_freshInode]
  by_cases hm : m ≤ n
  · exact ⟨(n, c), List.mem_cons_self, hm⟩
  · obtain ⟨p, hp, hle⟩ := lt_freshInode.mp (h.resolve_right fun same => hm (Nat.le_of_eq same))
    refine ⟨p, List.mem_cons_of_mem _ (List.mem_filter.mpr ⟨hp, ?_⟩), hle⟩
    simp only [decide_eq_true_eq]
    omega

/-- No content has two names, and the numbers that names have are known. -/
structure Sound (v : Volume) : Prop where
  numbered : ∀ l n, v.file? l = some n → n < v.freshInode
  single : ∀ l l' n, v.file? l = some n → v.file? l' = some n → l = l'

theorem Sound.empty : Sound {} := by
  have none_ : ∀ l, file? {} l = none := fun l => by
    unfold file? get?
    split <;> simp_all
  exact ⟨fun l n h => by simp [none_] at h, fun l l' n h => by simp [none_] at h⟩

/-! ## Operations -/

theorem find_eq_ok {v : Volume} {dir : Location} {name : String} {node : Node} :
    v.find dir name = .ok node ↔ v.get? (dir ++ [name]) = some node := by
  unfold find
  cases v.get? (dir ++ [name]) <;> simp

theorem find_eq_error {v : Volume} {dir : Location} {name : String} {e : Fault} (h : v.find dir name = .error e) :
    v.file? (dir ++ [name]) = none := by
  unfold find at h
  unfold file?
  split at h
  · cases h
  · simp only [*]

theorem bind_eq_ok {ε α β : Type} {x : Except ε α} {f : α → Except ε β} {b : β} (h : (x >>= f) = .ok b) :
    ∃ a, x = .ok a ∧ f a = .ok b := by
  cases x with
  | error e => cases h
  | ok a => exact ⟨a, rfl, h⟩

/-- New directories are no files. -/
theorem file?_makeDirectory {v v' : Volume} {cwd : Location} {p : Path} (h : v.makeDirectory cwd p = .ok v') :
    v'.file? = v.file? ∧ v'.contents = v.contents := by
  obtain ⟨⟨dir, last⟩, -, h⟩ := bind_eq_ok h
  cases last with
  | dots => cases h
  | name name slash =>
    obtain ⟨l, vacant, h⟩ := bind_eq_ok h
    cases h
    refine ⟨?_, rfl⟩
    unfold vacancy at vacant
    split at vacant
    · cases vacant
    · rename_i missing
      cases vacant
      funext x
      rw [file?_set v (by simp)]
      split
      · rename_i here
        rw [here, find_eq_error missing]
      · rfl
    · cases vacant

theorem file?_makeDirectories (fuel : Nat) (v : Volume) (cwd : Location) (p : Path) :
    (v.makeDirectories cwd fuel p).2.file? = v.file? ∧ (v.makeDirectories cwd fuel p).2.contents = v.contents := by
  induction fuel generalizing v p with
  | zero => exact ⟨rfl, rfl⟩
  | succ fuel ih =>
    unfold makeDirectories
    split
    · exact ⟨rfl, rfl⟩
    · split
      · exact file?_makeDirectory ‹_›
      · split
        · exact ⟨rfl, rfl⟩
        · rename_i parent _
          have above := ih v parent
          split
          · rename_i failed
            rw [failed] at above
            exact above
          · rename_i made
            rw [made] at above
            split
            · obtain ⟨files, contents⟩ := file?_makeDirectory ‹_›
              exact ⟨files.trans above.1, contents.trans above.2⟩
            · exact above
      · exact ⟨rfl, rfl⟩

theorem shortWrites_makeDirectory {v v' : Volume} {cwd : Location} {p : Path} (h : v.makeDirectory cwd p = .ok v') :
    v'.shortWrites = v.shortWrites := by
  obtain ⟨⟨dir, last⟩, -, h⟩ := bind_eq_ok h
  cases last with
  | dots => cases h
  | name name slash =>
    obtain ⟨l, -, h⟩ := bind_eq_ok h
    cases h
    rfl

theorem shortWrites_makeDirectories (fuel : Nat) (v : Volume) (cwd : Location) (p : Path) :
    (v.makeDirectories cwd fuel p).2.shortWrites = v.shortWrites := by
  induction fuel generalizing v p with
  | zero => rfl
  | succ fuel ih =>
    unfold makeDirectories
    split
    · rfl
    · split
      · exact shortWrites_makeDirectory ‹_›
      · split
        · rfl
        · rename_i parent _
          have above := ih v parent
          split
          · rename_i failed
            rwa [failed] at above
          · rename_i made
            rw [made] at above
            split
            · exact (shortWrites_makeDirectory ‹_›).trans above
            · exact above
      · rfl

theorem shortWrites_create {v v' : Volume} {cwd : Location} {p : Path} {n : Nat}
    (h : v.create cwd p = .ok (n, v')) : v'.shortWrites = v.shortWrites := by
  obtain ⟨⟨dir, last⟩, -, h⟩ := bind_eq_ok h
  cases last with
  | dots => cases h
  | name name slash =>
    simp only at h
    split at h
    · cases h
    · split at h <;> first | cases h; rfl | cases h

/-- An opened file is empty. It has the number that its place had before, or a new one; the other places and the
other contents stay. -/
theorem create_eq_ok {v v' : Volume} {p : Path} {n : Nat} (h : v.create [] p = .ok (n, v')) :
    (v.file? p.place = some n ∨ v.file? p.place = none ∧ n = v.freshInode) ∧
      (∀ l, v'.file? l = if l = p.place then some n else v.file? l) ∧
      (∀ m, v'.content m = if m = n then .bytes [] else v.content m) ∧
      ∀ m, m < v.freshInode ∨ m = n → m < v'.freshInode := by
  obtain ⟨⟨dir, last⟩, located, h⟩ := bind_eq_ok h
  cases last with
  | dots => cases h
  | name name slash =>
    have place := place_of_locate located
    simp only at h
    split at h
    · cases h
    split at h
    · cases h
    · rename_i found
      cases h
      have here : v.file? p.place = some n := by rw [← place, file?_eq_some, ← find_eq_ok, found]
      refine ⟨Or.inl here, fun l => ?_, content_setContent v n _, fun m => freshInode_setContent _⟩
      rw [file?_setContent]
      split
      · rw [‹l = _›, here]
      · rfl
    · rename_i missing
      cases h
      have absent : v.file? p.place = none := place ▸ find_eq_error missing
      refine ⟨Or.inr ⟨absent, rfl⟩, fun l => ?_, content_setContent _ _ _, fun m => freshInode_setContent _⟩
      rw [file?_setContent, file?_set v (by simp), place]
    · cases h

/-- A file that is removed has no name any more; nothing else changes. -/
theorem remove_eq_ok {v v' : Volume} {p : Path} (h : v.remove [] p = .ok v') :
    (∀ l, v'.file? l = if l = p.place then none else v.file? l) ∧ v'.contents = v.contents := by
  obtain ⟨⟨dir, last⟩, located, h⟩ := bind_eq_ok h
  cases last with
  | dots => cases h
  | name name slash =>
    have place := place_of_locate located
    obtain ⟨node, -, h⟩ := bind_eq_ok h
    cases node with
    | directory => cases h
    | file n =>
      simp only at h
      split at h
      · cases h
      · cases h
        exact ⟨fun l => by rw [file?_erase, place], rfl⟩

theorem removeIfPresent_eq_ok {v v' : Volume} {p : Path} (h : v.removeIfPresent [] p = .ok v') :
    v' = v ∨ (∀ l, v'.file? l = if l = p.place then none else v.file? l) ∧ v'.contents = v.contents := by
  unfold removeIfPresent at h
  split at h
  · cases h
    exact Or.inl rfl
  · exact Or.inr (remove_eq_ok h)

/-- A file that is renamed stands where the new path leads, in the place of a file or of nothing. -/
theorem rename_eq {v v' : Volume} {old new : Path} (h : v.rename [] old new = .ok v') :
    ∃ n, v.get? old.place = some (.file n) ∧ v.get? new.place ≠ some .directory ∧ new.place ≠ [] ∧
      v' = (v.erase old.place).set new.place (.file n) := by
  obtain ⟨⟨dir, last⟩, located, h⟩ := bind_eq_ok h
  obtain ⟨⟨newDir, newLast⟩, newLocated, h⟩ := bind_eq_ok h
  cases last with
  | dots => cases newLast <;> cases h
  | name name _ =>
    cases newLast with
    | dots => cases h
    | name newName slash =>
      rw [← place_of_locate located, ← place_of_locate newLocated]
      obtain ⟨node, found, h⟩ := bind_eq_ok h
      cases node with
      | directory => cases h
      | file n =>
        refine ⟨n, find_eq_ok.mp found, ?_, by simp, ?_⟩
        · intro directory
          rw [find_eq_ok.mpr directory] at h
          cases h
        · simp only at h
          split at h
          · split at h
            · cases h
            · exact (Except.ok.inj h).symm
          · split at h
            · cases h
            · exact (Except.ok.inj h).symm
          · cases h
          · cases h

/-- A file that is renamed keeps its number under the new name and loses the old one; nothing else changes. -/
theorem rename_eq_ok {v v' : Volume} {old new : Path} (h : v.rename [] old new = .ok v') :
    ∃ n, v.file? old.place = some n ∧
      (∀ l, v'.file? l = if l = new.place then some n else if l = old.place then none else v.file? l) ∧
      v'.contents = v.contents := by
  obtain ⟨n, found, -, named, rfl⟩ := rename_eq h
  exact ⟨n, file?_eq_some.mpr found, fun l => by rw [file?_set _ named, file?_erase], rfl⟩

/-- Writing where a file ends makes it longer. -/
theorem overwritten_at_end (old chunk : Bytes) : overwritten old old.length chunk = old ++ chunk := by
  simp [overwritten]

theorem content_overwrite {v : Volume} {n : Nat} {old : Bytes} (h : v.content n = .bytes old) (chunk : Bytes)
    (m : Nat) : (v.overwrite n old.length chunk).content m = if m = n then .bytes (old ++ chunk) else v.content m := by
  unfold overwrite
  rw [content_setContent, h, overwritten_at_end]

/-- Bytes get into the file that is written, all of them if the disk takes them. -/
theorem write_eq {v v' : Volume} {n offset : Nat} {chunk : Bytes} {answer : Except Fault Unit}
    (h : v.write n offset chunk = (answer, v')) :
    ∃ bytes, v' = v.answered.overwrite n offset bytes ∧ (answer = .ok () → bytes = chunk) := by
  unfold write at h
  split at h
  · cases h
    exact ⟨chunk, rfl, fun _ => rfl⟩
  · cases h
    exact ⟨_, rfl, nofun⟩

theorem flush_eq {v v' : Volume} {answer : Except Fault Unit} (h : v.flush = (answer, v')) : v' = v.answered := by
  unfold flush at h
  split at h <;> exact (Prod.mk.inj h).2.symm

/-! ## Files stay apart -/

namespace Sound

variable {v v' : Volume}

theorem congr (h : v.Sound) (files : v'.file? = v.file?) (numbers : ∀ n, n < v.freshInode → n < v'.freshInode) :
    v'.Sound where
  numbered l n hl := numbers n (h.numbered l n (files ▸ hl))
  single l l' n hl hl' := h.single l l' n (files ▸ hl) (files ▸ hl')

theorem overwrite (h : v.Sound) (n offset : Nat) (chunk : Bytes) : (v.overwrite n offset chunk).Sound :=
  h.congr rfl fun _ hm => freshInode_setContent _ (Or.inl hm)

theorem answered (h : v.Sound) : v.answered.Sound := h.congr rfl fun _ hm => hm

theorem ensureDirectory (h : v.Sound) (cwd : Location) (p : Path) : (v.ensureDirectory cwd p).2.Sound := by
  obtain ⟨files, contents⟩ := file?_makeDirectories (p.segments.length + 1) v cwd p
  refine h.congr files fun n hn => ?_
  rw [lt_freshInode] at hn ⊢
  rwa [Volume.ensureDirectory, contents]

theorem create (h : v.Sound) {p : Path} {n : Nat} (created : v.create [] p = .ok (n, v')) : v'.Sound := by
  obtain ⟨number, files, -, numbers⟩ := create_eq_ok created
  -- A name that had the number before is the place itself.
  have elsewhere : ∀ l, v.file? l = some n → l = p.place := fun l hl => by
    rcases number with here | ⟨-, rfl⟩
    · exact h.single l p.place n hl here
    · exact absurd (h.numbered l _ hl) (Nat.lt_irrefl _)
  constructor
  · intro l m hl
    rw [files] at hl
    split at hl
    · exact numbers m (Or.inr (Option.some.inj hl).symm)
    · exact numbers m (Or.inl (h.numbered l m hl))
  · intro l l' m hl hl'
    rw [files] at hl hl'
    split at hl <;> split at hl'
    · rw [‹l = _›, ‹l' = _›]
    · cases hl
      exact absurd (elsewhere l' hl') ‹_›
    · cases hl'
      exact absurd (elsewhere l hl) ‹_›
    · exact h.single l l' m hl hl'

theorem removeIfPresent (h : v.Sound) {p : Path} (removed : v.removeIfPresent [] p = .ok v') : v'.Sound := by
  rcases removeIfPresent_eq_ok removed with rfl | ⟨files, contents⟩
  · exact h
  · have before : ∀ l m, v'.file? l = some m → v.file? l = some m := fun l m hl => by
      rw [files] at hl
      split at hl
      · cases hl
      · exact hl
    constructor
    · intro l m hl
      have known := h.numbered l m (before l m hl)
      rw [lt_freshInode] at known ⊢
      rwa [contents]
    · exact fun l l' m hl hl' => h.single l l' m (before l m hl) (before l' m hl')

theorem rename (h : v.Sound) {old new : Path} (renamed : v.rename [] old new = .ok v') : v'.Sound := by
  obtain ⟨n, here, files, contents⟩ := rename_eq_ok renamed
  -- The number moves from one name to another, and every other name keeps its own.
  have moved : ∀ l m, v'.file? l = some m → l = new.place ∧ m = n ∨ l ≠ old.place ∧ v.file? l = some m := by
    intro l m hl
    rw [files] at hl
    split at hl
    · exact Or.inl ⟨‹_›, (Option.some.inj hl).symm⟩
    · split at hl
      · cases hl
      · exact Or.inr ⟨‹_›, hl⟩
  constructor
  · intro l m hl
    have known : m < v.freshInode := by
      rcases moved l m hl with ⟨-, rfl⟩ | ⟨-, before⟩
      · exact h.numbered _ _ here
      · exact h.numbered _ _ before
    rw [lt_freshInode] at known ⊢
    rwa [contents]
  · intro l l' m hl hl'
    rcases moved l m hl with ⟨rfl, rfl⟩ | ⟨other, before⟩ <;>
      rcases moved l' m hl' with ⟨rfl, same⟩ | ⟨other', before'⟩
    · rfl
    · exact absurd (h.single l' _ _ before' here) other'
    · exact absurd (h.single l _ _ (same ▸ before) here) other
    · exact h.single l l' m before before'

end Sound

/-! ## Files left alone -/

/-- A place has nothing to do with another one: it is not that place, and it does not name the same content. -/
structure Separate (v : Volume) (l x : Location) : Prop where
  other : l ≠ x
  unlinked : ∀ n, v.file? l = some n → v.file? x ≠ some n

theorem Sound.separate {v : Volume} (sound : v.Sound) {l x : Location} (other : l ≠ x) : v.Separate l x :=
  ⟨other, fun n named same => other (sound.single l x n named same)⟩

/-- A place is left alone: it names the content that it named before, and that is as it was. -/
structure Keeps (v v' : Volume) (l : Location) : Prop where
  file? : v'.file? l = v.file? l
  content : ∀ n, v.file? l = some n → v'.content n = v.content n

namespace Keeps

variable {v v' : Volume}

theorem refl (v : Volume) (l : Location) : v.Keeps v l := ⟨rfl, fun _ _ => rfl⟩

theorem trans {v'' : Volume} {l : Location} (h : v.Keeps v' l) (h' : v'.Keeps v'' l) : v.Keeps v'' l where
  file? := h'.file?.trans h.file?
  content n hl := (h'.content n (h.file?.trans hl)).trans (h.content n hl)

theorem contentAt?_eq {l : Location} (h : v.Keeps v' l) : v'.contentAt? l = v.contentAt? l := by
  rw [Volume.contentAt?_eq, Volume.contentAt?_eq, h.file?]
  cases found : v.file? l with
  | none => rfl
  | some n => rw [Option.map_some, Option.map_some, h.content n found]

theorem of_contents {l : Location} (file? : v'.file? l = v.file? l) (contents : v'.contents = v.contents) :
    v.Keeps v' l :=
  ⟨file?, fun n _ => by unfold Volume.content; rw [contents]⟩

theorem ensureDirectory (v : Volume) (cwd : Location) (p : Path) (l : Location) :
    v.Keeps (v.ensureDirectory cwd p).2 l := by
  obtain ⟨files, contents⟩ := file?_makeDirectories (p.segments.length + 1) v cwd p
  exact .of_contents (congrFun files l) contents

theorem erase (v : Volume) {l x : Location} (other : l ≠ x) : v.Keeps (v.erase x) l :=
  .of_contents (by rw [file?_erase, if_neg other]) rfl

theorem create (numbered : ∀ l n, v.file? l = some n → n < v.freshInode) {p : Path} {n : Nat}
    (created : v.create [] p = .ok (n, v')) {l : Location} (separate : v.Separate l p.place) : v.Keeps v' l := by
  obtain ⟨number, files, contents, -⟩ := create_eq_ok created
  refine ⟨by rw [files, if_neg separate.other], fun m hl => ?_⟩
  rw [contents, if_neg]
  rintro rfl
  rcases number with here | ⟨-, rfl⟩
  · exact separate.unlinked m hl here
  · exact absurd (numbered l _ hl) (Nat.lt_irrefl _)

theorem answered (v : Volume) (l : Location) : v.Keeps v.answered l := ⟨rfl, fun _ _ => rfl⟩

theorem overwrite {n : Nat} {old : Bytes} (here : v.content n = .bytes old) (chunk : Bytes) {l : Location}
    (other : v.file? l ≠ some n) : v.Keeps (v.overwrite n old.length chunk) l := by
  refine ⟨rfl, fun m hl => ?_⟩
  rw [content_overwrite here, if_neg]
  rintro rfl
  exact other hl

theorem removeIfPresent {p : Path} (removed : v.removeIfPresent [] p = .ok v') {l : Location} (other : l ≠ p.place) :
    v.Keeps v' l := by
  rcases removeIfPresent_eq_ok removed with rfl | ⟨files, contents⟩
  · exact refl v' l
  · exact .of_contents (by rw [files, if_neg other]) contents

theorem rename {old new : Path} (renamed : v.rename [] old new = .ok v') {l : Location} (notOld : l ≠ old.place)
    (notNew : l ≠ new.place) : v.Keeps v' l := by
  obtain ⟨n, -, files, contents⟩ := rename_eq_ok renamed
  exact .of_contents (by rw [files, if_neg notNew, if_neg notOld]) contents

end Keeps

end Volume

end Courier
