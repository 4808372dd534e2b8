/-
# Courier.Proofs.Storage.Interference -- what a transfer does to the file at another destination

A transfer writes to its part and to its destination, so a file at another destination can only be in its way
under the name of the part. Parts have names like destinations have, and `a.part` is a destination as good as any:
a transfer to `a` that gets to open its part has taken the file at `a.part`. Whatever happens to its stream then,
that file does not come back. Destinations that are not related in this way never meet
(`other_file_kept_unless_taken`).
-/
import Courier.Proofs.Storage.Rollback

namespace Courier.Storage

/-! ## Attempts -/

/-- Has the transfer reported that it was cancelled? -/
def wasCancelled : Except Problem Nat → Bool
  | .ok _ => false
  | .error e => e.failure.isCancelled

/-- A transfer as a task makes it: one that was cancelled is rolled back. -/
def attempt (base : Path) (v : Volume) (stream : List (Except Failure Bytes)) (destination : String) :
    Except Problem Nat × Volume :=
  let (result, v) := put base v stream destination
  (result, if wasCancelled result then (rollback base v destination).2 else v)

/-- A fault of the disk is no cancellation. -/
theorem wasCancelled_system (e : Fault) : wasCancelled (.error (.system e)) = false := by
  cases e with
  | device cause text => cases cause <;> rfl
  | _ => rfl

variable {base target target' : Path} {destination destination' : String} {v v' : Volume}
  {stream : List (Except Failure Bytes)} {result : Except Problem Nat}

/-- How an attempt ends: as the transfer did, with a rollback behind it if that was cancelled. -/
theorem attempt_outcome (accepted : resolve base destination = .ok target)
    (done : attempt base v stream destination = (result, v')) :
    ∃ w, Outcome v target stream result w ∧
      v' = if wasCancelled result then (rollback base w destination).2 else w := by
  unfold attempt at done
  cases transferred : put base v stream destination with
  | mk result' w =>
    rw [transferred] at done
    cases done
    exact ⟨w, put_outcome accepted v stream transferred, rfl⟩

/-- An attempt leaves every place alone that has nothing to do with its part and is not its destination. -/
theorem keeps_attempt (numbered : ∀ l n, v.file? l = some n → n < v.freshInode)
    (accepted : resolve base destination = .ok target) (done : attempt base v stream destination = (result, v'))
    {l : Location} (separate : v.Separate l (partPath target).place) (notTarget : l ≠ target.place) :
    v.Keeps v' l := by
  obtain ⟨w, outcome, rfl⟩ := attempt_outcome accepted done
  have keeps := outcome.keeps_of_separate numbered separate (.inr notTarget)
  split
  · exact keeps.trans (keeps_rollback accepted (Prod.eta _).symm separate.other notTarget)
  · exact keeps

/-- An attempt whose part cannot be opened leaves every place alone. -/
theorem keeps_attempt_of_closed (accepted : resolve base destination = .ok target)
    (done : attempt base v stream destination = (result, v')) (closed : ¬∃ n w, Opens v target n w) (l : Location) :
    v.Keeps v' l := by
  obtain ⟨w, outcome, rfl⟩ := attempt_outcome accepted done
  have keeps := keeps_prepared v target l
  cases outcome with
  | barred made =>
    rw [made] at keeps
    rwa [wasCancelled_system, if_neg Bool.false_ne_true]
  | unopened made =>
    rw [made] at keeps
    rwa [wasCancelled_system, if_neg Bool.false_ne_true]
  | stopped opens => exact absurd ⟨_, _, opens⟩ closed
  | failed opens => exact absurd ⟨_, _, opens⟩ closed
  | refused opens => exact absurd ⟨_, _, opens⟩ closed
  | stored opens => exact absurd ⟨_, _, opens⟩ closed

/-- What is under the name of the part once an attempt has opened it: nothing, or all of the stream where that
could not take the name of the destination. -/
theorem part_of_attempt (accepted : resolve base destination = .ok target)
    (done : attempt base v stream destination = (result, v')) {n : Nat} {opened : Volume}
    (opens : Opens v target n opened) :
    v'.contentAt? (partPath target).place = none ∨
      ∃ (chunks : List Bytes) (e : Fault), stream = chunks.map .ok ∧ result = .error (.system e) ∧
        v'.contentAt? (partPath target).place = some (.bytes chunks.flatten) := by
  obtain ⟨inner, name, -, -, below⟩ := resolve_eq_ok accepted
  obtain ⟨w, outcome, rfl⟩ := attempt_outcome accepted done
  cases outcome with
  | barred made => exact absurd made opens.not_barred
  | unopened made refused => exact absurd refused (opens.not_unopened made)
  | @stopped m w _ pieces problem opens _ cancelled wrote =>
    have stopped : wasCancelled (.error problem) = true := cancelled
    have gone := part_of_rollback accepted (Prod.eta _).symm (opens.holds wrote)
    exact .inl (by rw [stopped, if_pos rfl, Volume.contentAt?_eq, gone, Option.map_none])
  | @failed m w _ pieces problem opens _ genuine =>
    have failed : wasCancelled (.error problem) = false := genuine
    exact .inl (by rw [failed, if_neg Bool.false_ne_true, Volume.contentAt?_eq, Volume.file?_erase, if_pos rfl,
      Option.map_none])
  | @refused m w _ chunks e opens whole wrote =>
    refine .inr ⟨chunks, e, sent_of_received whole, rfl, ?_⟩
    rw [wasCancelled_system, if_neg Bool.false_ne_true, Volume.contentAt?_eq, (opens.holds wrote).file?,
      Option.map_some, opens.content_written wrote, if_pos rfl]
  | stored opens whole wrote renamed =>
    obtain ⟨-, -, -, -, gone⟩ := (Outcome.stored opens whole wrote renamed).stored_ok below.apart
    exact .inl (by simp only [wasCancelled, Bool.false_eq_true, if_false, Volume.contentAt?, gone])

/-! ## Two destinations -/

/-- The names that the part of a destination has below the base: the last one has `.part` behind it. -/
def partNames (destination : String) : List String :=
  let names := (Path.ofText destination).names
  names.dropLast ++ [names.getLast?.getD "" ++ ".part"]

/-- The part of a destination is in the place of another destination, if the other one is spelt like the part. -/
theorem partPlace_eq_iff (accepted : resolve base destination = .ok target)
    (accepted' : resolve base destination' = .ok target') :
    (partPath target).place = target'.place ↔ (Path.ofText destination').names = partNames destination := by
  obtain ⟨inner, name, names, -, below⟩ := resolve_eq_ok accepted
  obtain ⟨inner', name', names', -, below'⟩ := resolve_eq_ok accepted'
  rw [below.partPlace, below'.place, partNames, names, names', List.append_assoc, List.append_assoc]
  simp [eq_comm]

theorem place_eq_iff (accepted : resolve base destination = .ok target)
    (accepted' : resolve base destination' = .ok target') :
    target.place = target'.place ↔ (Path.ofText destination).names = (Path.ofText destination').names := by
  obtain ⟨inner, name, names, -, below⟩ := resolve_eq_ok accepted
  obtain ⟨inner', name', names', -, below'⟩ := resolve_eq_ok accepted'
  rw [below.place, below'.place, names, names', List.append_assoc, List.append_assoc]
  exact List.append_right_inj _

/-- A transfer takes the file of another destination: that one is spelt like its part, and it gets to open the
part. -/
def Takes (v : Volume) (target : Path) (destination destination' : String) : Prop :=
  (Path.ofText destination').names = partNames destination ∧ ∃ n w, Opens v target n w

/-- A transfer to one destination, which succeeds, or fails anywhere in its stream, or is cancelled and rolled back,
while there is a file at a different destination that has no other name. That file stays as it is unless the
transfer takes it. If it does, nothing is left there, or else all of the transfer's own stream, where that could not
take the name of its destination. -/
theorem other_file_kept_unless_taken (numbered : ∀ l n, v.file? l = some n → n < v.freshInode)
    (accepted : resolve base destination = .ok target)
    (accepted' : resolve base destination' = .ok target')
    (different : (Path.ofText destination).names ≠ (Path.ofText destination').names) {c : Content}
    (complete : v.contentAt? target'.place = some c)
    (single : ∀ l n, v.file? l = some n → v.file? target'.place = some n → l = target'.place)
    (done : attempt base v stream destination = (result, v')) :
    (¬Takes v target destination destination' → v'.contentAt? target'.place = some c) ∧
      (Takes v target destination destination' → v'.contentAt? target'.place = none ∨
        ∃ (chunks : List Bytes) (e : Fault), stream = chunks.map .ok ∧ result = .error (.system e) ∧
          v'.contentAt? target'.place = some (.bytes chunks.flatten)) := by
  have spelt := partPlace_eq_iff accepted accepted'
  have notTarget : target'.place ≠ target.place := by
    intro same
    exact different ((place_eq_iff accepted accepted').mp same.symm)
  constructor
  · intro free
    rw [← complete]
    apply Volume.Keeps.contentAt?_eq
    by_cases opened : ∃ n w, Opens v target n w
    · -- The part is opened, so it is not spelt like the other destination.
      have notPart : target'.place ≠ (partPath target).place := by
        intro same
        exact free ⟨spelt.mp same.symm, opened⟩
      have separate : v.Separate target'.place (partPath target).place := by
        refine ⟨notPart, ?_⟩
        intro n named part
        exact notPart (single _ n part named).symm
      exact keeps_attempt numbered accepted done separate notTarget
    · exact keeps_attempt_of_closed accepted done opened _
  · rintro ⟨names, n, w, opens⟩
    rw [← spelt.mpr names]
    exact part_of_attempt accepted done opens

/-- The name of a part does not reach back: a cancelled transfer to `a.part` leaves the file at `a`. -/
theorem other_file_kept_under_part_name :
    let attempted := attempt (.ofText "base") stocked [.ok [2], .error .cancelled] "a.part"
    attempted.1 = .error (.stream .cancelled) ∧
      ¬Takes stocked (.ofText "base/a.part") "a.part" "a" ∧
      attempted.2.contentAt? ["base", "a"] = some (.bytes [1]) := by
  intro attempted
  have accepted : resolve (.ofText "base") "a.part" = .ok (.ofText "base/a.part") := by decide +kernel
  have accepted' : resolve (.ofText "base") "a" = .ok (.ofText "base/a") := by decide +kernel
  have complete : stocked.contentAt? (Path.ofText "base/a").place = some (.bytes [1]) := by decide +kernel
  have place : (Path.ofText "base/a").place = ["base", "a"] := by decide +kernel
  have free : ¬Takes stocked (.ofText "base/a.part") "a.part" "a" := by
    intro taken
    exact absurd taken.1 (by decide +kernel)
  have done : attempt (.ofText "base") stocked [.ok [2], .error .cancelled] "a.part" =
      (attempted.1, attempted.2) := rfl
  have single := fun l n => sound_stocked.single l (Path.ofText "base/a").place n
  have kept := (other_file_kept_unless_taken sound_stocked.numbered accepted accepted' (by decide +kernel) complete
    single done).1 free
  exact ⟨by decide +kernel, free, place ▸ kept⟩

/-- The complete file at `a.part` is gone after a transfer to `a`, whether that succeeds, fails, or is cancelled and
rolled back. -/
theorem file_taken_for_part :
    let v := (put (.ofText "base") {} [.ok [1]] "a.part").2
    resolve (.ofText "base") "a" = .ok (.ofText "base/a") ∧
      resolve (.ofText "base") "a.part" = .ok (.ofText "base/a.part") ∧
      v.contentAt? ["base", "a.part"] = some (.bytes [1]) ∧
      ∀ stream ∈ [[.ok [2]], [.ok [2], .error ⟨.network, "down"⟩], [.ok [2], .error .cancelled]],
        (attempt (.ofText "base") v stream "a").2.contentAt? ["base", "a.part"] = none := by
  refine ⟨?_, ?_, ?_, ?_⟩
  all_goals decide +kernel

end Courier.Storage
