/-
# Courier.Proofs.Feed.Stopped -- what a stopped stream delivers

A consumer asks a stream again and again until it has ended. What a checkpointed stream answers is compared with what
the source itself would have answered, poll by poll, for every source and every moment at which the stop signal fires:
up to this moment there is no difference (`received_quiet`), and after it the stream is over in two polls
(`received_stopped`), whatever the source has ready.

The moment is counted in the consumer's polls. A signal that fires while a poll is under way, after the stream has
looked at it, is found by the next poll, so no other moments can be told apart. Nobody asks a stream again that has
ended, and `received` does not either.
-/
import Courier.Rehearsal.Script

namespace Courier.Feed

variable {σ : Type}

/-! ## Asking a source -/

namespace Source

/-- What a consumer is answered who asks until the end, but not more than so many times. -/
def received (source : Source σ) : Nat → σ → List Poll
  | 0, _ => []
  | n + 1, s =>
    match source.poll s with
    | (.finished, _) => [.finished]
    | (p, s) => p :: source.received n s

/-- The state of a source that has been asked so many times. -/
def after (source : Source σ) : Nat → σ → σ
  | 0, s => s
  | n + 1, s => source.after n (source.poll s).2

theorem after_succ (source : Source σ) (k : Nat) (s : σ) :
    source.after (k + 1) s = (source.poll (source.after k s)).2 := by
  induction k generalizing s with
  | zero => rfl
  | succ k ih => rw [after, ih, after]

theorem received_finished {source : Source σ} {s : σ} (ends : (source.poll s).1 = .finished) (n : Nat) :
    source.received (n + 1) s = [.finished] := by
  unfold received
  split
  · rfl
  · rename_i p s' other same
    rw [same] at ends
    exact absurd ends other

theorem received_succ {source : Source σ} {s : σ} (goesOn : (source.poll s).1 ≠ .finished) (n : Nat) :
    source.received (n + 1) s = (source.poll s).1 :: source.received n (source.poll s).2 := by
  rw [received]
  split
  · rename_i same
    exact absurd (by rw [same]) goesOn
  · rename_i same
    rw [same]

/-- A source whose end has been delivered is not asked again. -/
theorem received_of_ended {source : Source σ} {s : σ} {k n : Nat} (ended : .finished ∈ source.received k s)
    (le : k ≤ n) : source.received n s = source.received k s := by
  induction k generalizing s n with
  | zero => exact absurd ended List.not_mem_nil
  | succ k ih =>
    obtain ⟨n, rfl⟩ : ∃ m, n = m + 1 := ⟨n - 1, by omega⟩
    by_cases ends : (source.poll s).1 = .finished
    · rw [received_finished ends, received_finished ends]
    · rw [received_succ ends] at ended ⊢
      rw [received_succ ends, ih ((List.mem_cons.mp ended).resolve_left (Ne.symm ends)) (by omega)]

/-- As long as the end has not been delivered, the later answers are those of the state that has been reached. -/
theorem received_add (source : Source σ) {s : σ} {k : Nat} (unended : .finished ∉ source.received k s) (n : Nat) :
    source.received (k + n) s = source.received k s ++ source.received n (source.after k s) := by
  induction k generalizing s with
  | zero => rw [Nat.zero_add, received, after, List.nil_append]
  | succ k ih =>
    have goesOn : (source.poll s).1 ≠ .finished := fun ends =>
      unended (by rw [received_finished ends]; exact List.mem_cons_self)
    rw [received_succ goesOn] at unended
    rw [Nat.succ_add, received_succ goesOn, received_succ goesOn, after,
      ih fun later => unended (List.mem_cons_of_mem _ later), List.cons_append]

end Source

/-! ## Stopping it -/

/-- Does the poll with this number, counted from zero, find the signal fired? It fires in front of the poll `moment`,
or never. -/
def fired (moment : Option Nat) (n : Nat) : Bool :=
  match moment with
  | none => false
  | some k => decide (k ≤ n)

theorem fired_of_lt {k n : Nat} (h : n < k) : fired (some k) n = false :=
  decide_eq_false (Nat.not_le.mpr h)

theorem fired_of_le {k n : Nat} (h : k ≤ n) : fired (some k) n = true :=
  decide_eq_true h

/-- A checkpointed stream as a source of its own, which counts its polls. -/
def Source.checkpointed (source : Source σ) (moment : Option Nat) : Source (Checkpointed σ × Nat) where
  poll := fun (stream, n) =>
    let (p, stream) := stream.poll source (fired moment n)
    (p, stream, n + 1)

section Stopping

variable (source : Source σ) (s : σ) {moment : Option Nat} {k n : Nat}

/-- A poll that does not find the signal fired answers as the source does, and nothing is left of a source that has
ended. -/
theorem poll_quiet (quiet : fired moment n = false) :
    ((source.checkpointed moment).poll (some s, n)).1 = (source.poll s).1 ∧
      ((source.poll s).1 ≠ .finished →
        ((source.checkpointed moment).poll (some s, n)).2 = (some (source.poll s).2, n + 1)) := by
  simp only [Source.checkpointed, Checkpointed.poll, quiet, Bool.false_eq_true, if_false]
  rcases source.poll s with ⟨_ | _ | _, _⟩
  · exact ⟨rfl, fun _ => rfl⟩
  · exact ⟨rfl, fun _ => rfl⟩
  · exact ⟨rfl, fun goesOn => absurd rfl goesOn⟩

/-- As long as no poll finds the signal fired, the answers are those of the source. -/
theorem received_quiet (quiet : ∀ i, n ≤ i → i < n + k → fired moment i = false) :
    (source.checkpointed moment).received k (some s, n) = source.received k s := by
  induction k generalizing s n with
  | zero => rfl
  | succ k ih =>
    obtain ⟨same, next⟩ := poll_quiet source s (quiet n (Nat.le_refl n) (by omega))
    by_cases ends : (source.poll s).1 = .finished
    · rw [Source.received_finished ends, Source.received_finished (same.trans ends)]
    · rw [Source.received_succ ends, Source.received_succ (same ▸ ends), same, next ends,
        ih _ fun i low high => quiet i (by omega) (by omega)]

/-- Then the stream still has its source, in the state that the source has reached. -/
theorem after_quiet (quiet : ∀ i, n ≤ i → i < n + k → fired moment i = false)
    (unended : .finished ∉ source.received k s) :
    (source.checkpointed moment).after k (some s, n) = (some (source.after k s), n + k) := by
  induction k generalizing s n with
  | zero => rfl
  | succ k ih =>
    have goesOn : (source.poll s).1 ≠ .finished := fun ends =>
      unended (by rw [Source.received_finished ends]; exact List.mem_cons_self)
    obtain ⟨-, next⟩ := poll_quiet source s (quiet n (Nat.le_refl n) (by omega))
    rw [Source.received_succ goesOn] at unended
    rw [Source.after, Source.after, next goesOn, ih _ (fun i low high => quiet i (by omega) (by omega))
      fun later => unended (List.mem_cons_of_mem _ later), Nat.succ_add_eq_add_succ]

/-- A poll that finds the signal fired is answered by the failure, and the source is given up. -/
theorem poll_stopped (found : fired moment n = true) :
    (source.checkpointed moment).poll (some s, n) = (.item (.error Failure.cancelled), none, n + 1) := by
  simp only [Source.checkpointed, found, Checkpointed.poll_fired]

/-- Then the next poll is answered by the end. -/
theorem received_stopped (found : fired moment n = true) (m : Nat) :
    (source.checkpointed moment).received 1 (some s, n) = [.item (.error Failure.cancelled)] ∧
      (source.checkpointed moment).received (m + 2) (some s, n) =
        [.item (.error Failure.cancelled), .finished] := by
  have stop := poll_stopped source s found
  have closed : ((source.checkpointed moment).poll (none, n + 1)).1 = .finished := rfl
  have goesOn : ((source.checkpointed moment).poll (some s, n)).1 ≠ .finished := by rw [stop]; nofun
  rw [Source.received_succ goesOn, Source.received_succ goesOn, stop, Source.received_finished closed]
  exact ⟨rfl, rfl⟩

end Stopping

/-- Whatever a source answers, and whenever the signal fires: in front of this moment the consumer is answered as by the
source. If the source had not ended by then, the next poll delivers one cancellation, whatever the source has ready, and
nothing is left of the source; the poll after it delivers the end, and nothing else follows. If the end of the source
had been delivered by then, or if the signal never fires, all answers are those of the source. -/
theorem checkpointed_prefix (source : Source σ) (s : σ) :
    (∀ k n, n ≤ k → (source.checkpointed (some k)).received n (some s, 0) = source.received n s) ∧
      (∀ k, .finished ∉ source.received k s →
        (source.checkpointed (some k)).received (k + 1) (some s, 0) =
            source.received k s ++ [.item (.error Failure.cancelled)] ∧
          ((source.checkpointed (some k)).after (k + 1) (some s, 0)).1 = none ∧
          ∀ n, (source.checkpointed (some k)).received (k + (n + 2)) (some s, 0) =
            source.received k s ++ [.item (.error Failure.cancelled), .finished]) ∧
      (∀ k, .finished ∈ source.received k s →
        ∀ n, (source.checkpointed (some k)).received n (some s, 0) = source.received n s) ∧
      ∀ n, (source.checkpointed none).received n (some s, 0) = source.received n s := by
  have before : ∀ k n, n ≤ k → (source.checkpointed (some k)).received n (some s, 0) = source.received n s :=
    fun k n le => received_quiet source s fun i _ high => fired_of_lt (by omega)
  refine ⟨before, fun k unended => ?_, fun k ended n => ?_, fun n => received_quiet source s fun _ _ _ => rfl⟩
  · have same := before k k (Nat.le_refl k)
    have reached : (source.checkpointed (some k)).after k (some s, 0) = (some (source.after k s), k) := by
      rw [after_quiet source s (fun i _ high => fired_of_lt (by omega)) unended, Nat.zero_add]
    have found := fired_of_le (Nat.le_refl k)
    have later := (source.checkpointed (some k)).received_add (same.symm ▸ unended)
    rw [reached, same] at later
    refine ⟨?_, ?_, fun n => ?_⟩
    · rw [later, (received_stopped source _ found 0).1]
    · rw [Source.after_succ, reached, poll_stopped source _ found]
    · rw [later, (received_stopped source _ found n).2]
  · rcases Nat.le_total n k with le | le
    · exact before k n le
    · rw [Source.received_of_ended ended le, ← before k k (Nat.le_refl k)]
      exact Source.received_of_ended (by rwa [before k k (Nat.le_refl k)]) le

/-- Two chunks are ready. The signal fires behind the first one, or behind the end. -/
theorem checkpointed_prefix_of_two_chunks :
    let source := Rehearsal.stream []
    let s : Rehearsal.Rest := ⟨[[1], [2]], none, none⟩
    .finished ∉ source.received 1 s ∧
      (source.checkpointed (some 1)).received 2 (some s, 0) =
        [.item (.ok [1]), .item (.error Failure.cancelled)] ∧
      (∀ n, (source.checkpointed (some 1)).received (1 + (n + 2)) (some s, 0) =
        [.item (.ok [1]), .item (.error Failure.cancelled), .finished]) ∧
      .finished ∈ source.received 3 s ∧
      (source.checkpointed (some 3)).received 9 (some s, 0) = [.item (.ok [1]), .item (.ok [2]), .finished] := by
  intro source s
  obtain ⟨-, stopped, ended, -⟩ := checkpointed_prefix source s
  have unended : .finished ∉ source.received 1 s := fun first => nomatch List.mem_singleton.mp first
  have closed : .finished ∈ source.received 3 s := .tail _ (.tail _ (.head _))
  exact ⟨unended, (stopped 1 unended).1, (stopped 1 unended).2.2, closed, ended 3 closed 9⟩

end Courier.Feed
