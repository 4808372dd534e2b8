/-
# Courier.Proofs.Storage.Rollback -- what a transfer leaves once it is rolled back

A cancelled transfer leaves its part, and a rollback takes the part away and then whatever file is at the
destination. The second removal is meant for an output that was finished before anybody noticed the cancellation.
A rollback cannot tell such an output from one that an earlier transfer has stored there.

So a transfer that is cancelled and rolled back leaves every file as it was, unless the destination showed a file
when the part was opened (`Overwrites`): that file is gone (`rollback_restores_iff`).
-/
import Courier.Proofs.Storage.Outcome

namespace Courier.Storage

variable {base target : Path} {destination : String} {v v' v'' : Volume} {inner : List String} {name : String}

/-! ## Rollbacks -/

/-- A rollback stops at a part that cannot be removed, or it goes on to the destination and removes the file there,
if there is one that can be removed. -/
theorem rollback_cases (accepted : resolve base destination = .ok target) {answer : Except Problem Unit}
    (undone : rollback base v destination = (answer, v')) :
    ((∃ e, v.removeIfPresent [] (partPath target) = .error e) ∧ v' = v) ∨
      ∃ w, v.removeIfPresent [] (partPath target) = .ok w ∧
        ((∃ n, w.Holds target n) ∧ v' = w.erase target.place ∨ (∀ n, ¬w.Holds target n) ∧ v' = w) := by
  unfold rollback at undone
  rw [accepted] at undone
  simp only at undone
  cases part : v.removeIfPresent [] (partPath target) with
  | error e =>
    rw [part] at undone
    cases undone
    exact .inl ⟨⟨e, rfl⟩, rfl⟩
  | ok w =>
    simp only [part] at undone
    refine .inr ⟨w, rfl, ?_⟩
    rcases w.removeIfPresent_cases target with ⟨n, holds, removed⟩ | ⟨none_, removed | ⟨e, removed⟩⟩
    · rw [removed] at undone
      cases undone
      exact .inl ⟨⟨n, holds⟩, rfl⟩
    · rw [removed] at undone
      cases undone
      exact .inr ⟨none_, rfl⟩
    · rw [removed] at undone
      cases undone
      exact .inr ⟨none_, rfl⟩

/-- A rollback leaves every place alone besides the part and the destination. -/
theorem keeps_rollback (accepted : resolve base destination = .ok target) {answer : Except Problem Unit}
    (undone : rollback base v destination = (answer, v')) {l : Location} (notPart : l ≠ (partPath target).place)
    (notTarget : l ≠ target.place) : v.Keeps v' l := by
  rcases rollback_cases accepted undone with ⟨-, rfl⟩ | ⟨w, removed, ⟨-, rfl⟩ | ⟨-, rfl⟩⟩
  · exact .refl v' l
  · exact (Volume.Keeps.removeIfPresent removed notPart).trans (.erase w notTarget)
  · exact .removeIfPresent removed notPart

/-- A rollback takes the part away. -/
theorem part_of_rollback (accepted : resolve base destination = .ok target) {answer : Except Problem Unit}
    (undone : rollback base v destination = (answer, v')) {n : Nat} (part : v.Holds (partPath target) n) :
    v'.file? (partPath target).place = none := by
  rcases rollback_cases accepted undone with ⟨⟨e, refused⟩, -⟩ | ⟨w, removed, ended⟩
  · rw [part.removeIfPresent] at refused
    cases refused
  · obtain rfl := Except.ok.inj (part.removeIfPresent.symm.trans removed)
    rcases ended with ⟨-, rfl⟩ | ⟨-, rfl⟩
    · rw [Volume.file?_erase, Volume.file?_erase, if_pos rfl, ite_self]
    · rw [Volume.file?_erase, if_pos rfl]

/-! ## After a cancelled transfer -/

/-- With the directories of the destination made, the part can be opened, and the destination shows a file. -/
def Overwrites (v : Volume) (target : Path) : Prop :=
  (∃ n v', (prepared v target).2.create [] (partPath target) = .ok (n, v')) ∧
    ∃ n, (prepared v target).2.Holds target n

/-- A transfer that has left no part: all files are as they were, and the names are those that were there when its
directories had been made. -/
structure PartGone (v : Volume) (target : Path) (w : Volume) : Prop where
  keeps : ∀ l, v.Keeps w l
  names : w.get? = (prepared v target).2.get?

theorem PartGone.prepared (v : Volume) (target : Path) : PartGone v target (prepared v target).2 :=
  ⟨keeps_prepared v target, rfl⟩

theorem PartGone.holds_iff {w : Volume} (h : PartGone v target w) {p : Path} {n : Nat} :
    w.Holds p n ↔ (Storage.prepared v target).2.Holds p n :=
  ⟨fun holds => holds.mono (by simp [h.names]) (h.names ▸ holds.found),
    fun holds => holds.mono (by simp [h.names]) (h.names ▸ holds.found)⟩

/-- What a rollback leaves of a transfer: no part, and no file that the transfer overwrites. -/
inductive Undone (v : Volume) (target : Path) : Volume → Prop where
  | restored {w : Volume} (gone : PartGone v target w) (free : ¬Overwrites v target) : Undone v target w
  | deprived {w : Volume} (gone : PartGone v target w) (shown : Overwrites v target) :
      Undone v target (w.erase target.place)

/-- Beside a file at its destination a part can be opened exactly if a removal of the part is not refused. -/
theorem Accepted.creates_iff (below : Accepted base target inner name) {n : Nat} (holds : v.Holds target n)
    (absent : v.file? (partPath target).place = none) :
    (∃ m w, v.create [] (partPath target) = .ok (m, w)) ↔
      ∃ w, v.removeIfPresent [] (partPath target) = .ok w := by
  constructor
  · rintro ⟨m, w, created⟩
    exact ⟨v, (Volume.create_new created absent).2⟩
  · -- The part is named beside the destination, so its directory is there.
    rintro ⟨w, removed⟩
    obtain ⟨before, tail, ends, -⟩ := below.ends
    obtain ⟨front, segments, said⟩ := ends.withLastName below.plain_part
    have part : (partPath target).segments = front ++ [name ++ ".part"] := by
      rw [partPath, ends.lastName?]
      exact segments
    exact holds.creates_beside ends part said (isIdle_partName name) (partName_ne name (by decide)) absent removed

/-- A rollback where a transfer has left no part. -/
theorem PartGone.undone {w : Volume} (gone : PartGone v target w) (accepted : resolve base destination = .ok target)
    (absent : v.file? (partPath target).place = none) {answer : Except Problem Unit}
    (undone : rollback base w destination = (answer, v')) : Undone v target v' := by
  obtain ⟨inner, name, -, -, below⟩ := resolve_eq_ok accepted
  have absentMade : (Storage.prepared v target).2.file? (partPath target).place = none :=
    (keeps_prepared v target _).file?.trans absent
  rcases rollback_cases accepted undone with ⟨⟨e, refused⟩, rfl⟩ | ⟨u, removed, ended⟩
  · refine .restored gone ?_
    rintro ⟨creates, n, holds⟩
    obtain ⟨u, removed⟩ := (below.creates_iff holds absentMade).mp creates
    rw [Volume.removeIfPresent_congr gone.names.symm refused] at removed
    cases removed
  · -- There is no part to be removed, so the first removal has changed nothing.
    obtain rfl : w = u := by
      rcases Volume.removeIfPresent_cases w (partPath target) with ⟨n, part, -⟩ | ⟨-, kept | ⟨e, refused⟩⟩
      · have missing := (gone.keeps _).file?.trans absent
        rw [part.file?] at missing
        cases missing
      · exact Except.ok.inj (kept.symm.trans removed)
      · rw [refused] at removed
        cases removed
    rcases ended with ⟨⟨n, holds⟩, rfl⟩ | ⟨none_, rfl⟩
    · have held := gone.holds_iff.mp holds
      refine .deprived gone ⟨(below.creates_iff held absentMade).mpr ?_, n, held⟩
      cases made : (Storage.prepared v target).2.removeIfPresent [] (partPath target) with
      | ok u => exact ⟨u, rfl⟩
      | error e =>
        rw [Volume.removeIfPresent_congr gone.names made] at removed
        cases removed
    · exact .restored gone fun shown => shown.2.elim fun n holds => none_ n (gone.holds_iff.mpr holds)

/-- A part that was opened and filled, and is removed. -/
theorem Opens.partGone {n : Nat} (opens : Opens v target n v')
    (numbered : ∀ l m, v.file? l = some m → m < v.freshInode) (absent : v.file? (partPath target).place = none)
    {w : Volume} {pieces : List Bytes} (wrote : Written v' n 0 pieces w) :
    PartGone v target (w.erase (partPath target).place) := by
  have holds := opens.holds wrote
  obtain ⟨made, prepares, created⟩ := id opens
  have before := (keeps_prepared v target (partPath target).place).file?
  rw [prepares, absent] at before
  constructor
  · intro l
    by_cases part : l = (partPath target).place
    · -- The part itself: it was not there before, and it is not there now.
      refine ⟨by rw [Volume.file?_erase, if_pos part, part, absent], fun m named => ?_⟩
      rw [part, absent] at named
      cases named
    · have separate : v.Separate l (partPath target).place := ⟨part, fun m _ => by rw [absent]; exact nofun⟩
      exact (opens.keeps_written numbered wrote separate).trans (.erase _ part)
  · -- The part is the only name that opening it can have added.
    funext l
    rw [Volume.get?_erase _ holds.place_ne, prepares]
    split
    · rename_i part
      rw [part, (Volume.create_new created before).1]
    · rename_i other
      rw [Volume.get?_congr wrote.nodes, (Volume.create_holds created).2 l other]

/-- A rollback of a transfer that has left its part. -/
theorem undone_of_opened (accepted : resolve base destination = .ok target)
    (numbered : ∀ l m, v.file? l = some m → m < v.freshInode) (absent : v.file? (partPath target).place = none)
    {n : Nat} (opens : Opens v target n v') {w : Volume} {pieces : List Bytes} (wrote : Written v' n 0 pieces w)
    {answer : Except Problem Unit} (undone : rollback base w destination = (answer, v'')) : Undone v target v'' := by
  have gone := opens.partGone numbered absent wrote
  have removed := (opens.holds wrote).removeIfPresent
  rcases rollback_cases accepted undone with ⟨⟨e, refused⟩, -⟩ | ⟨w, removed', ended⟩
  · rw [removed] at refused
    cases refused
  · obtain rfl := Except.ok.inj (removed.symm.trans removed')
    rcases ended with ⟨⟨m, holds⟩, rfl⟩ | ⟨none_, rfl⟩
    · obtain ⟨made, prepares, created⟩ := opens
      exact .deprived gone ⟨⟨n, v', by rw [prepares, created]⟩, m, gone.holds_iff.mp holds⟩
    · exact .restored gone fun shown => shown.2.elim fun m holds => none_ m (gone.holds_iff.mpr holds)

/-- A transfer whose stream breaks off, and then a rollback. -/
theorem undone_of_broken (numbered : ∀ l n, v.file? l = some n → n < v.freshInode)
    (accepted : resolve base destination = .ok target) (absent : v.file? (partPath target).place = none)
    {chunks : List Bytes} {f : Failure} {rest : List (Except Failure Bytes)} {result : Except Problem Nat}
    (done : put base v (chunks.map .ok ++ .error f :: rest) destination = (result, v'))
    {answer : Except Problem Unit} (undone : rollback base v' destination = (answer, v'')) :
    Undone v target v'' := by
  have outcome := put_outcome accepted v _ done
  generalize streamed : chunks.map .ok ++ .error f :: rest = stream at outcome
  cases outcome with
  | barred made => exact (PartGone.prepared v target).undone accepted absent (by rw [made]; exact undone)
  | unopened made => exact (PartGone.prepared v target).undone accepted absent (by rw [made]; exact undone)
  | stopped opens _ _ wrote => exact undone_of_opened accepted numbered absent opens wrote undone
  -- The disk has not taken what came before the cancellation.
  | failed opens _ _ wrote => exact (opens.partGone numbered absent wrote).undone accepted absent undone
  | refused _ whole => exact absurd ((sent_of_received whole).symm.trans streamed.symm) (whole_ne_failed _ _ _ _)
  | stored _ whole => exact absurd ((sent_of_received whole).symm.trans streamed.symm) (whole_ne_failed _ _ _ _)

/-- What a transfer overwrites is a file at its destination. -/
theorem Overwrites.contentAt? (h : Overwrites v target) : ∃ c, v.contentAt? target.place = some c := by
  obtain ⟨-, n, holds⟩ := h
  have named : v.file? target.place = some n :=
    (keeps_prepared v target target.place).file?.symm.trans holds.file?
  exact ⟨v.content n, by rw [Volume.contentAt?_eq, named, Option.map_some]⟩

theorem PartGone.contentAt?_erase {w : Volume} (h : PartGone v target w) (l : Location) :
    (w.erase target.place).contentAt? l = if l = target.place then none else v.contentAt? l := by
  split
  · rw [Volume.contentAt?_eq, Volume.file?_erase, if_pos ‹_›, Option.map_none]
  · exact ((Volume.Keeps.erase w ‹_›).contentAt?_eq).trans (h.keeps l).contentAt?_eq

/-- A transfer whose stream breaks off behind some chunks, by a cancellation for one, and a rollback behind it, where
there was no part before; the disk may refuse any of the writes. Every file is as it was, if and only if it is not the
case that the part could be opened while the destination showed a file. If that is the case, the file at the destination
is gone, and all others are as they were. -/
theorem rollback_restores_iff (numbered : ∀ l n, v.file? l = some n → n < v.freshInode)
    (accepted : resolve base destination = .ok target) (absent : v.file? (partPath target).place = none)
    {chunks : List Bytes} {f : Failure} {rest : List (Except Failure Bytes)} {result : Except Problem Nat}
    (done : put base v (chunks.map .ok ++ .error f :: rest) destination = (result, v'))
    {answer : Except Problem Unit} (undone : rollback base v' destination = (answer, v'')) :
    ((∀ l, v''.contentAt? l = v.contentAt? l) ↔ ¬Overwrites v target) ∧
      (Overwrites v target → (∃ c, v.contentAt? target.place = some c) ∧
        ∀ l, v''.contentAt? l = if l = target.place then none else v.contentAt? l) := by
  cases undone_of_broken numbered accepted absent done undone with
  | restored gone free =>
    exact ⟨iff_of_true (fun l => (gone.keeps l).contentAt?_eq) free, fun shown => absurd shown free⟩
  | deprived gone shown =>
    have left := gone.contentAt?_erase
    refine ⟨iff_of_false ?_ (not_not.mpr shown), fun _ => ⟨shown.contentAt?, left⟩⟩
    intro same
    obtain ⟨c, before⟩ := shown.contentAt?
    rw [← same, left, if_pos rfl] at before
    cases before

/-- A transfer to a new destination is cancelled and rolled back beside a complete file. -/
theorem rollback_restores_beside_file :
    let first := put (.ofText "base") stocked [.ok [2], .error .cancelled] "b/c"
    let undone := rollback (.ofText "base") first.2 "b/c"
    first.1 = .error (.stream .cancelled) ∧ ¬Overwrites stocked (.ofText "base/b/c") ∧
      first.2.contentAt? ["base", "b", "c.part"] = some (.bytes [2]) ∧
      (∀ l, undone.2.contentAt? l = stocked.contentAt? l) ∧
      undone.2.contentAt? ["base", "a"] = some (.bytes [1]) := by
  intro first undone
  have accepted : resolve (.ofText "base") "b/c" = .ok (.ofText "base/b/c") := by decide +kernel
  have absent : stocked.file? (partPath (.ofText "base/b/c")).place = none := by decide +kernel
  have nothing : stocked.contentAt? (Path.ofText "base/b/c").place = none := by decide +kernel
  have restores : ¬Overwrites stocked (.ofText "base/b/c") := by
    intro overwrites
    obtain ⟨c, shown⟩ := overwrites.contentAt?
    rw [nothing] at shown
    cases shown
  have done : put (.ofText "base") stocked ([[2]].map .ok ++ .error .cancelled :: []) "b/c" =
      (first.1, first.2) := rfl
  have rolledBack : rollback (.ofText "base") first.2 "b/c" = (undone.1, undone.2) := rfl
  have restored :=
    (rollback_restores_iff sound_stocked.numbered accepted absent done rolledBack).1.mpr restores
  exact ⟨by decide +kernel, restores, by decide +kernel, restored, (restored _).trans (by decide +kernel)⟩

/-- A second transfer to a destination is cancelled and rolled back, and the complete file of the first one is
gone. -/
theorem complete_file_rolled_back :
    let second := put (.ofText "base") stocked [.ok [2], .error .cancelled] "a"
    let undone := rollback (.ofText "base") second.2 "a"
    stocked.file? ["base", "a.part"] = none ∧ second.1 = .error (.stream .cancelled) ∧
      stocked.contentAt? ["base", "a"] = some (.bytes [1]) ∧ second.2.contentAt? ["base", "a"] = some (.bytes [1]) ∧
      undone.1 = .ok () ∧ undone.2.contentAt? ["base", "a"] = none := by
  refine ⟨?_, ?_, ?_, ?_, ?_, ?_⟩
  all_goals decide +kernel

end Courier.Storage
