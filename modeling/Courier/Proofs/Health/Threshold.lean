/-
# Courier.Proofs.Health.Threshold -- when the link counts as lost

A single failed probe says little, so the monitor counts: the link is lost after as many failures in a row
as the settings ask for, and it stays lost until a probe succeeds. Two kinds of probes come into this.
Periodic ones count either way. A reconnection attempt that fails does not count, and one that succeeds
counts only while its episode is open.

The count and the state are two fields that different parties write, and the theorem of this module is that
they never disagree (`Monitor.Agrees`). The count itself, and the number of the episode, are compared with
what can be read off the run: its record, and the steps at which the link was lost.
-/
import Courier.Proofs.Health.Episodes

namespace Courier.Health

theorem Settings.threshold_pos (c : Settings) : 0 < c.threshold := Nat.le_max_right _ _

/-! ## What a run puts on record -/

/-- The number of failures since the last success. -/
def failuresInARow (record : List Recorded) : Nat := (record.reverse.takeWhile (· == .failure)).length

/-- The number of failures in a row, when another entry may have come in. -/
def Recorded.tally (failures : Nat) : Option Recorded → Nat
  | none => failures
  | some .success => 0
  | some .failure => failures + 1

theorem failuresInARow_append (record : List Recorded) (r : Option Recorded) :
    failuresInARow (record ++ r.toList) = Recorded.tally (failuresInARow record) r := by
  rcases r with - | - | - <;> simp [failuresInARow, Recorded.tally]

namespace System

/-- The moves of a run, each with the state it is made in. -/
def steps (c : Settings) (s : System) : List Move → List (System × Move)
  | [] => []
  | m :: ms => (s, m) :: (s.step c m).steps c ms

theorem steps_concat (c : Settings) (s : System) (ms : List Move) (m : Move) :
    s.steps c (ms ++ [m]) = s.steps c ms ++ [(s.run c ms, m)] := by
  induction ms generalizing s with
  | nil => rfl
  | cons m' ms ih => exact congrArg _ (ih (s.step c m'))

/-- The record of a run, the first entry first. -/
def record (c : Settings) (s : System) (ms : List Move) : List Recorded :=
  (s.steps c ms).filterMap fun p => p.1.recorded? p.2

theorem record_concat (c : Settings) (s : System) (ms : List Move) (m : Move) :
    s.record c (ms ++ [m]) = s.record c ms ++ ((s.run c ms).recorded? m).toList := by
  rw [record, steps_concat, List.filterMap_append]
  cases h : (s.run c ms).recorded? m <;> simp [record, h]

/-- Does the link begin to count as lost with this move? -/
def losesLink (c : Settings) (s : System) (m : Move) : Bool :=
  s.monitor.link != .reconnecting && (s.step c m).monitor.link == .reconnecting

/-- How often the link begins to count as lost in a run. -/
def losses (c : Settings) (s : System) (ms : List Move) : Nat :=
  (s.steps c ms).countP fun p => p.1.losesLink c p.2

theorem losses_concat (c : Settings) (s : System) (ms : List Move) (m : Move) :
    s.losses c (ms ++ [m]) = s.losses c ms + ((s.run c ms).losesLink c m).toNat := by
  rw [losses, steps_concat, List.countP_append, List.countP_singleton]
  cases (s.run c ms).losesLink c m <;> rfl

end System

/-! ## What a turn does to the count, the state and the number of episodes -/

/-- There are enough failures exactly when the link is lost, and watchers see the state as it is. -/
structure Monitor.Agrees (c : Settings) (m : Monitor) : Prop where
  enough : c.threshold ≤ m.failures ↔ m.isLost
  watched : m.watched = m.link

section Turns

variable {c : Settings} {stopped : Bool} {m m' : Monitor} {r : Option Recorded}

open Monitor

theorem Turn.watched (turn : Turn c stopped m r m') (h : m.watched = m.link) : m'.watched = m'.link := by
  cases turn with
  | heard => exact watched_transition _ _ h
  | restored | lost | givenUp =>
    simp only [restore, lose, watched_fire, link_fire]
    exact watched_transition _ _ h
  | missed | refused => exact h

/-- No failures, and the link is not lost. -/
theorem Monitor.enough_of_no_failures (none : m.failures = 0) (up : ¬m.isLost) :
    c.threshold ≤ m.failures ↔ m.isLost := by
  rw [none]
  exact iff_of_false (Nat.not_le_of_lt c.threshold_pos) up

theorem Turn.enough (turn : Turn c stopped m r m') (h : c.threshold ≤ m.failures ↔ m.isLost) :
    c.threshold ≤ m'.failures ↔ m'.isLost := by
  cases turn with
  | heard => exact enough_of_no_failures (by simp [reached]) (by simp [isLost])
  | restored => exact enough_of_no_failures (by simp [reached, restore]) (by simp [isLost, restore])
  | missed e borne =>
    show c.threshold ≤ m.failures + 1 ↔ m.isLost
    rcases borne with few | mending
    · refine iff_of_false (Nat.not_le_of_lt few) fun lost => ?_
      exact absurd (h.mpr lost) (Nat.not_le_of_lt (Nat.lt_of_succ_lt few))
    · have lost : m.isLost := Or.inl mending
      exact iff_of_true (Nat.le_succ_of_le (h.mpr lost)) lost
  | lost e enough closed =>
    refine iff_of_true ?_ (by simp [isLost, lose])
    simpa [lose, Monitor.missed] using enough
  | refused e => exact h
  | givenUp mending =>
    refine iff_of_true ?_ (by simp [isLost])
    simpa using h.mpr (Or.inl mending)

/-- The count follows the record. -/
theorem Turn.failures (turn : Turn c stopped m r m') : m'.failures = Recorded.tally m.failures r := by
  cases turn <;> simp [Recorded.tally, reached, restore, Monitor.missed, lose]

/-- Episodes are numbered by the losses of the link. -/
theorem Turn.episode (turn : Turn c stopped m r m') :
    m'.episode = m.episode + (m.link != .reconnecting && m'.link == .reconnecting).toNat := by
  cases turn with
  | lost e enough closed => simp [lose, Monitor.missed, bne_iff_ne.mpr closed]
  | missed | refused => cases link : m.link <;> simp [Monitor.missed, link]
  | heard | restored | givenUp => simp [reached, restore]

/-- After the start the link is never unknown again. -/
theorem Turn.known (turn : Turn c stopped m r m') (known : m.link ≠ .unknown) : m'.link ≠ .unknown := by
  cases turn <;> simp [restore, lose, Monitor.missed, known]

end Turns

/-! ## Runs -/

namespace System

variable {c : Settings}

/-- The state after a run and what can be read off the run say the same. -/
structure Counted (c : Settings) (ms : List Move) (s : System) : Prop where
  agrees : s.monitor.Agrees c
  failures : s.monitor.failures = failuresInARow (({} : System).record c ms)
  episode : s.monitor.episode = ({} : System).losses c ms
  known : s.starts = 0 ∨ s.monitor.link ≠ .unknown

theorem counted_run (c : Settings) (ms : List Move) (once : ms.countP Move.isStart ≤ 1) :
    Counted c ms (({} : System).run c ms) := by
  have init : Counted c [] {} :=
    ⟨⟨Monitor.enough_of_no_failures rfl (by simp [Monitor.isLost]), rfl⟩, rfl, rfl, Or.inl rfl⟩
  refine induction_once init ?_ ms once
  rintro ms m s here single once h
  have record : ({} : System).record c (ms ++ [m]) = ({} : System).record c ms ++ (s.recorded? m).toList := by
    rw [record_concat, here]
  have losses : ({} : System).losses c (ms ++ [m]) = s.monitor.episode + (s.losesLink c m).toNat := by
    rw [losses_concat, here, h.episode]
  rcases single.step_turn once with ⟨rfl, fresh, starts, quiet⟩ | ⟨other, same, quiet⟩ | ⟨one, turn⟩
  · constructor
    · rw [starts]
      exact ⟨Monitor.enough_of_no_failures rfl (by simp [Monitor.isLost, Monitor.start]), rfl⟩
    · rw [record, quiet, failuresInARow_append, ← h.failures, starts, fresh]
      rfl
    · rw [losses, losesLink, starts, fresh]
      rfl
    · rw [starts]
      exact Or.inr nofun
  · have known : (s.step c m).starts = 0 ∨ s.monitor.link ≠ .unknown := by
      rw [(s.carries_step m).starts, other]
      exact h.known
    refine ⟨same ▸ h.agrees, ?_, ?_, same ▸ known⟩
    · rw [record, quiet, failuresInARow_append, ← h.failures, same]
      rfl
    · rw [losses, losesLink, same]
      cases s.monitor.link <;> rfl
  · have known := h.known.resolve_left (one ▸ Nat.one_ne_zero)
    refine ⟨⟨turn.enough h.agrees.enough, turn.watched h.agrees.watched⟩, ?_, ?_, Or.inr (turn.known known)⟩
    · rw [record, failuresInARow_append, ← h.failures]
      exact turn.failures
    · rw [losses, losesLink]
      exact turn.episode

end System

end Courier.Health
