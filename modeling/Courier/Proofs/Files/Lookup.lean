/-
# Courier.Proofs.Files.Lookup -- what a look-up depends on

Whether a path can be followed depends on names alone, not on contents, and what it needs of the names on
its way is that they stand for directories. So a file that was opened under a path can be looked up under
it, and removed, for as long as its name is there and no directory is taken away.

What making directories adds is directories on the way of a path, and nothing at or below its end.
-/
import Courier.Proofs.Files.Segments

namespace Courier.Volume

variable {v v' : Volume}

/-! ## Names on the way -/

/-- What can be followed can be followed where there are more directories. -/
theorem descend_mono (directories : ∀ l, v.get? l = some .directory → v'.get? l = some .directory)
    {dir l : Location} {segments : List String} (h : v.descend dir segments = .ok l) :
    v'.descend dir segments = .ok l := by
  induction segments generalizing dir with
  | nil => exact h
  | cons s rest ih =>
    simp only [descend] at h ⊢
    split at h
    · rw [if_pos ‹_›]
      exact ih h
    · rw [if_neg ‹_›]
      split at h
      · rw [if_pos ‹_›]
        exact ih h
      · rw [if_neg ‹_›]
        cases found : v.find dir s with
        | error e =>
          rw [found] at h
          cases h
        | ok node =>
          rw [found] at h
          cases node with
          | file n => cases h
          | directory =>
            rw [find_eq_ok.mpr (directories _ (find_eq_ok.mp found))]
            exact ih h

theorem locate_mono (directories : ∀ l, v.get? l = some .directory → v'.get? l = some .directory) {cwd : Location}
    {p : Path} {found : Location × Ending} (h : v.locate cwd p = .ok found) : v'.locate cwd p = .ok found := by
  unfold locate at h ⊢
  generalize ending p = last at h ⊢
  obtain ⟨before, last⟩ := last
  generalize (if p.isAbsolute then [] else cwd) = start at h ⊢
  simp only at h ⊢
  split_ifs at h ⊢
  obtain ⟨dir, descended, h⟩ := bind_eq_ok h
  rw [descend_mono directories descended]
  exact h

/-- Segments that say nothing lead nowhere. -/
theorem descend_said (v : Volume) (dir : Location) (segments : List String) :
    v.descend dir (Path.said segments) = v.descend dir segments := by
  induction segments generalizing dir with
  | nil => rfl
  | cons s rest ih =>
    cases idle : Path.isIdle s with
    | true => rw [Path.said_cons_of_idle idle, descend, if_pos idle, ih]
    | false =>
      rw [Path.said_cons_of_named idle]
      simp only [descend, ih]

theorem get?_congr (same : v'.nodes = v.nodes) : v'.get? = v.get? := by
  unfold get?
  rw [same]

theorem find_congr (same : v'.get? = v.get?) : v'.find = v.find := by
  unfold find
  rw [same]

theorem locate_congr (same : v'.get? = v.get?) : v'.locate = v.locate := by
  have descends (dir : Location) (segments : List String) : v'.descend dir segments = v.descend dir segments := by
    induction segments generalizing dir with
    | nil => rfl
    | cons s rest ih => simp only [descend, find_congr same, ih]
  funext cwd p
  unfold locate
  simp only [descends]

/-- Names alone decide what a removal finds. -/
theorem removeIfPresent_congr {cwd : Location} {p : Path} {e : Fault} (same : v'.get? = v.get?)
    (refused : v.removeIfPresent cwd p = .error e) : v'.removeIfPresent cwd p = .error e := by
  unfold removeIfPresent remove at refused ⊢
  rw [locate_congr same, find_congr same]
  generalize v.locate cwd p = there at refused ⊢
  rcases there with found | ⟨dir, ⟨name, slash⟩ | _⟩
  · cases found <;> first | exact refused | cases refused
  · simp only [bind, Except.bind] at refused ⊢
    generalize v.find dir name = node at refused ⊢
    rcases node with found | _ | n
    · cases found <;> first | exact refused | cases refused
    · exact refused
    · cases slash <;> first | exact refused | cases refused
  · exact refused

theorem ending_of_segments {p : Path} {front : List String} {name : String} (segments : p.segments = front ++ [name])
    (named : Path.isIdle name = false) (down : name ≠ "..") : ending p = (front, .name name false) := by
  have filled : (name == "") = false ∧ (name == ".") = false := by simpa [Path.isIdle] using named
  unfold ending
  rw [segments, List.reverse_append, List.reverse_singleton, List.singleton_append,
    List.dropWhile_cons_of_neg (by simp [filled.1])]
  simp only [List.reverse_reverse, List.getLast?_concat]
  rw [if_neg]
  · simpa using filled.1
  · exact fun dots => dots.elim (by simpa using filled.2) down

/-! ## Files under a path -/

/-- A path leads to a file, whose name is the last segment of the path. -/
structure Holds (v : Volume) (p : Path) (n : Nat) : Prop where
  located : ∃ dir name, v.locate [] p = .ok (dir, .name name false)
  found : v.get? p.place = some (.file n)

namespace Holds

variable {p : Path} {n : Nat}

theorem mono (h : v.Holds p n) (directories : ∀ l, v.get? l = some .directory → v'.get? l = some .directory)
    (found : v'.get? p.place = some (.file n)) : v'.Holds p n := by
  obtain ⟨dir, name, located⟩ := h.located
  exact ⟨⟨dir, name, locate_mono directories located⟩, found⟩

theorem congr (h : v.Holds p n) (same : v'.nodes = v.nodes) : v'.Holds p n := by
  have get := get?_congr same
  exact h.mono (fun l directory => by rw [get, directory]) (by rw [get, h.found])

theorem file? (h : v.Holds p n) : v.file? p.place = some n := file?_eq_some.mpr h.found

theorem place_ne (h : v.Holds p n) : p.place ≠ [] := by
  obtain ⟨dir, name, located⟩ := h.located
  rw [← place_of_locate located]
  simp

/-- A file that is there can be removed. -/
theorem remove (h : v.Holds p n) : v.remove [] p = .ok (v.erase p.place) := by
  obtain ⟨dir, name, located⟩ := h.located
  have place := place_of_locate located
  have found : v.find dir name = .ok (.file n) := find_eq_ok.mpr (place ▸ h.found)
  unfold Volume.remove
  rw [located]
  simp only [bind, Except.bind, found, place]
  rfl

theorem removeIfPresent (h : v.Holds p n) : v.removeIfPresent [] p = .ok (v.erase p.place) := by
  unfold Volume.removeIfPresent
  rw [h.remove]

/-- The directory of a file that is there can be found under any path that names something else in it, unless that
path is too long or is none at all. -/
theorem beside (h : v.Holds p n) {q : Path} {before tail front : List String} {name other : String}
    (ends : p.Ends before name tail) (segments : q.segments = front ++ [other])
    (same : Path.said front = Path.said before) (named : Path.isIdle other = false) (down : other ≠ "..") :
    (∃ dir, v.locate [] q = .ok (dir, .name other false)) ∨ v.locate [] q = .error .invalid ∨
      v.locate [] q = .error .nameTooLong := by
  obtain ⟨dir, last, located⟩ := h.located
  obtain ⟨before', ending_, followed⟩ := ending_of_locate located
  obtain ⟨tail', segments', named', down', idle'⟩ := segments_of_ending ending_
  -- The path can be cut at its last name in one way only.
  have cut : Path.said before ++ [name] = Path.said before' ++ [last] :=
    ends.said_eq.symm.trans (Path.Ends.said_eq ⟨segments', named', down', idle'⟩)
  have way : v.descend [] front = .ok dir := by
    rw [← descend_said, same, (List.append_inj' cut rfl).1, descend_said, followed]
  have some_ : q ≠ Path.nowhere := by
    rintro rfl
    have empty : [] ++ [""] = front ++ [other] := segments
    rw [← (List.cons.inj (List.append_inj' empty rfl).2).1] at named
    cases named
  unfold locate
  rw [if_neg some_, ending_of_segments segments named down]
  simp only [ite_self, way]
  split_ifs
  · exact .inr (.inl rfl)
  · exact .inr (.inr rfl)
  · exact .inl ⟨dir, rfl⟩

end Holds

/-- What is removed was a file under its path. -/
theorem holds_of_remove {p : Path} (h : v.remove [] p = .ok v') : ∃ n, v.Holds p n ∧ v' = v.erase p.place := by
  obtain ⟨⟨dir, last⟩, located, h⟩ := bind_eq_ok h
  cases last with
  | dots => cases h
  | name name slash =>
    have place := place_of_locate located
    obtain ⟨node, found, removed⟩ := bind_eq_ok h
    cases node with
    | directory => cases removed
    | file n =>
      simp only at removed
      split at removed
      · cases removed
      · rename_i plain
        rw [Bool.not_eq_true] at plain
        subst plain
        cases removed
        exact ⟨n, ⟨⟨dir, name, located⟩, place ▸ find_eq_ok.mp found⟩, by rw [place]⟩

/-- A file that is there is removed; where none is, nothing changes. -/
theorem removeIfPresent_cases (v : Volume) (p : Path) :
    (∃ n, v.Holds p n ∧ v.removeIfPresent [] p = .ok (v.erase p.place)) ∨
      (∀ n, ¬v.Holds p n) ∧ (v.removeIfPresent [] p = .ok v ∨ ∃ e, v.removeIfPresent [] p = .error e) := by
  cases removed : v.remove [] p with
  | ok v' =>
    obtain ⟨n, holds, -⟩ := holds_of_remove removed
    exact .inl ⟨n, holds, holds.removeIfPresent⟩
  | error e =>
    refine .inr ⟨fun n holds => ?_, ?_⟩
    · rw [holds.remove] at removed
      cases removed
    · unfold removeIfPresent
      rw [removed]
      cases e with
      | notFound => exact .inl rfl
      | _ => exact .inr ⟨_, rfl⟩

/-- A file that was opened is under its path, and nothing else has got or lost a name. -/
theorem create_holds {p : Path} {n : Nat} (h : v.create [] p = .ok (n, v')) :
    v'.Holds p n ∧ ∀ l, l ≠ p.place → v'.get? l = v.get? l := by
  obtain ⟨⟨dir, last⟩, located, h⟩ := bind_eq_ok h
  cases last with
  | dots => cases h
  | name name slash =>
    have place := place_of_locate located
    simp only at h
    split at h
    · cases h
    rename_i plain
    rw [Bool.not_eq_true] at plain
    subst plain
    split at h
    · cases h
    · rename_i m found
      cases h
      have same (l : Location) : (v.setContent n (.bytes [])).get? l = v.get? l := rfl
      exact ⟨⟨⟨dir, name, locate_mono (fun l directory => (same l).trans directory) located⟩,
        (same _).trans (place ▸ find_eq_ok.mp found)⟩, fun l _ => same l⟩
    · rename_i missing
      cases h
      have named : dir ++ [name] ≠ [] := by simp
      have get (l : Location) : ((v.set (dir ++ [name]) (.file v.freshInode)).setContent v.freshInode
          (.bytes [])).get? l = if l = dir ++ [name] then some (.file v.freshInode) else v.get? l :=
        get?_set v named _ l
      refine ⟨⟨⟨dir, name, locate_mono (fun l directory => ?_) located⟩, ?_⟩, fun l other => ?_⟩
      · rw [get, if_neg, directory]
        rintro rfl
        rw [find_eq_ok.mpr directory] at missing
        cases missing
      · rw [get, if_pos place.symm]
      · rw [get, if_neg (place ▸ other)]
    · cases h

/-- Where no file is, opening one finds no name, and a removal finds nothing to remove. -/
theorem create_new {p : Path} {n : Nat} (h : v.create [] p = .ok (n, v')) (absent : v.file? p.place = none) :
    v.get? p.place = none ∧ v.removeIfPresent [] p = .ok v := by
  obtain ⟨⟨dir, last⟩, located, h⟩ := bind_eq_ok h
  cases last with
  | dots => cases h
  | name name slash =>
    have place := place_of_locate located
    simp only at h
    split at h
    · cases h
    split at h
    · cases h
    · rename_i found
      rw [file?_eq_some.mpr (place ▸ find_eq_ok.mp found)] at absent
      cases absent
    · rename_i missing
      constructor
      · unfold find at missing
        split at missing
        · cases missing
        · rw [← place]
          assumption
      · unfold removeIfPresent remove
        rw [located]
        simp only [bind, Except.bind, missing]
    · cases h

/-- Beside a file that is there another one can be opened, if a removal there finds nothing to remove. -/
theorem Holds.creates_beside {p q : Path} {n : Nat} (h : v.Holds p n) {before tail front : List String}
    {name other : String} (ends : p.Ends before name tail) (segments : q.segments = front ++ [other])
    (same : Path.said front = Path.said before) (named : Path.isIdle other = false) (down : other ≠ "..")
    (absent : v.file? q.place = none) {w : Volume} (removed : v.removeIfPresent [] q = .ok w) :
    ∃ m v', v.create [] q = .ok (m, v') := by
  unfold Volume.removeIfPresent Volume.remove at removed
  rcases h.beside ends segments same named down with ⟨dir, located⟩ | invalid | long
  · rw [located] at removed
    unfold create
    rw [located]
    simp only [bind, Except.bind] at removed ⊢
    cases found : v.find dir other with
    | ok node =>
      rw [found] at removed
      cases node with
      | directory => cases removed
      | file m =>
        rw [file?_eq_some.mpr (place_of_locate located ▸ find_eq_ok.mp found)] at absent
        cases absent
    | error e =>
      rw [found] at removed
      cases e with
      | notFound => exact ⟨_, _, rfl⟩
      | _ => cases removed
  · rw [invalid] at removed
    cases removed
  · rw [long] at removed
    cases removed

/-! ## Directories made on the way -/

theorem get?_makeDirectory {p : Path} (h : v.makeDirectory [] p = .ok v') (l : Location) (other : l ≠ p.place) :
    v'.get? l = v.get? l := by
  obtain ⟨⟨dir, last⟩, located, h⟩ := bind_eq_ok h
  cases last with
  | dots => cases h
  | name name slash =>
    obtain ⟨place, vacant, h⟩ := bind_eq_ok h
    cases h
    unfold vacancy at vacant
    split at vacant
    · cases vacant
    · cases vacant
      rw [get?_set v (by simp), if_neg (place_of_locate located ▸ other)]
    · cases vacant

/-- Directories are made on the way to the end of a path, and nowhere else. -/
theorem get?_makeDirectories (fuel : Nat) {p : Path} (down : ".." ∉ p.segments) {l : Location}
    (aside : ¬l <+: p.place) : (v.makeDirectories [] fuel p).2.get? l = v.get? l := by
  have other : l ≠ p.place := fun same => aside (same ▸ List.prefix_rfl)
  induction fuel generalizing v p with
  | zero => rfl
  | succ fuel ih =>
    unfold makeDirectories
    split
    · rfl
    · split
      · exact get?_makeDirectory ‹_› l other
      · split
        · rfl
        · rename_i parent found
          obtain ⟨downParent, name, place⟩ := Path.place_of_parent? down found
          have asideParent : ¬l <+: parent.place := fun way =>
            aside (place ▸ way.trans (List.prefix_append _ _))
          have above := ih (v := v) downParent asideParent fun same => asideParent (same ▸ List.prefix_rfl)
          split
          · rename_i failed
            rw [failed] at above
            exact above
          · rename_i made
            rw [made] at above
            split
            · exact (get?_makeDirectory ‹_› l other).trans above
            · exact above
      · rfl

/-- No directory goes away when another one is made. -/
theorem directory_makeDirectory {cwd : Location} {p : Path} (h : v.makeDirectory cwd p = .ok v') {l : Location}
    (directory : v.get? l = some .directory) : v'.get? l = some .directory := by
  obtain ⟨⟨dir, last⟩, -, h⟩ := bind_eq_ok h
  cases last with
  | dots => cases h
  | name name slash =>
    obtain ⟨place, vacant, h⟩ := bind_eq_ok h
    cases h
    unfold vacancy at vacant
    split at vacant
    · cases vacant
    · cases vacant
      rw [get?_set v (by simp), directory, ite_self]
    · cases vacant

theorem directory_makeDirectories (fuel : Nat) {cwd : Location} {p : Path} {l : Location}
    (directory : v.get? l = some .directory) : (v.makeDirectories cwd fuel p).2.get? l = some .directory := by
  induction fuel generalizing v p with
  | zero => exact directory
  | succ fuel ih =>
    unfold makeDirectories
    split
    · exact directory
    · split
      · exact directory_makeDirectory ‹_› directory
      · split
        · exact directory
        · rename_i parent _
          have above := ih (v := v) (p := parent) directory
          split
          · rename_i failed
            rw [failed] at above
            exact above
          · rename_i made
            rw [made] at above
            split
            · exact directory_makeDirectory ‹_› above
            · exact above
      · exact directory

end Courier.Volume
