/-
# Courier.Proofs.Health.Episodes -- what one step makes of the monitor

A probe loop and any number of reconnection procedures, most of them out of date, change one state. However
many there are, there are only a few things that one step can do to it: `Turn` lists them, and
`System.step_turn` says that there are no others. What holds of the monitor in every run is proved turn by
turn in the modules after this one.

A monitor that is started once has one stop token. `System.Single` is what that means for its parties: all of
them have the token `0`, and before the start nothing has happened at all.
-/
import Courier.Health.Run
import Mathlib.Data.List.Induction

namespace Courier.Health

/-! ## The state of the link -/

namespace Monitor

section Fields

variable (m : Monitor) (next : Link) (signal : Signal) (stopped : Bool)

@[simp] theorem link_transition : (m.transition next).link = next := by
  unfold transition
  split
  · assumption
  · rfl

@[simp] theorem failures_transition : (m.transition next).failures = m.failures := by
  unfold transition
  split <;> rfl

@[simp] theorem episode_transition : (m.transition next).episode = m.episode := by
  unfold transition
  split <;> rfl

@[simp] theorem emitted_transition : (m.transition next).emitted = m.emitted := by
  unfold transition
  split <;> rfl

/-- Watchers that are up to date stay so. -/
theorem watched_transition (current : m.watched = m.link) :
    (m.transition next).watched = (m.transition next).link := by
  unfold transition
  split
  · exact current
  · rfl

@[simp] theorem link_fire : (m.fire signal stopped).link = m.link := by
  cases stopped <;> rfl

@[simp] theorem failures_fire : (m.fire signal stopped).failures = m.failures := by
  cases stopped <;> rfl

@[simp] theorem episode_fire : (m.fire signal stopped).episode = m.episode := by
  cases stopped <;> rfl

@[simp] theorem watched_fire : (m.fire signal stopped).watched = m.watched := by
  cases stopped <;> rfl

theorem emitted_fire :
    (m.fire signal stopped).emitted = if stopped then m.emitted else signal :: m.emitted := by
  cases stopped <;> rfl

end Fields

/-- Is the link lost, whether it is still being mended or given up? -/
def isLost (m : Monitor) : Prop := m.link = .reconnecting ∨ m.link = .disconnected

/-- The monitor with a success on record. -/
def reached (m : Monitor) (now : Int) : Monitor := { m with failures := 0, lastSuccess := some now }

/-- The monitor with a failed periodic probe on record. -/
def missed (m : Monitor) (e : LinkError) : Monitor :=
  { m with failures := m.failures + 1, lastError := some e.message }

/-- A new episode begins. -/
def lose (m : Monitor) (stopped : Bool) : Monitor :=
  ({ m with episode := m.episode + 1 }.transition .reconnecting).fire .disconnected stopped

/-- The link is back after an episode. -/
def restore (m : Monitor) (stopped : Bool) : Monitor :=
  (m.transition .connected).fire .reconnected stopped

end Monitor

/-! ## Turns -/

/-- What the monitor counts: failed periodic probes, and successes of any probe that still matters. -/
inductive Recorded where
  | success
  | failure
deriving DecidableEq, Repr

namespace Recorded

def ofProbe : Except LinkError Unit → Recorded
  | .ok _ => .success
  | .error _ => .failure

/-- Failed reconnection attempts are not counted. -/
def ofReconnect : Except LinkError Unit → Option Recorded
  | .ok _ => some .success
  | .error _ => none

end Recorded

/-- What a party, told to stop or not, does to the monitor in one step, and what is recorded of it. -/
inductive Turn (c : Settings) (stopped : Bool) (m : Monitor) : Option Recorded → Monitor → Prop
  /-- A periodic probe has succeeded, and the link was not lost. -/
  | heard (now : Int) (up : ¬m.isLost) : Turn c stopped m (some .success) ((m.reached now).transition .connected)
  /-- A probe has succeeded, a periodic one or one of an open episode. -/
  | restored (now : Int) (lost : m.isLost) :
      Turn c stopped m (some .success) ((m.reached now).restore stopped)
  /-- A periodic probe has failed, and that is all. -/
  | missed (e : LinkError) (borne : m.failures + 1 < c.threshold ∨ m.link = .reconnecting) :
      Turn c stopped m (some .failure) (m.missed e)
  /-- A periodic probe has failed and opens an episode. -/
  | lost (e : LinkError) (enough : c.threshold ≤ m.failures + 1) (closed : m.link ≠ .reconnecting) :
      Turn c stopped m (some .failure) ((m.missed e).lose stopped)
  /-- A reconnection attempt has failed. -/
  | refused (e : LinkError) : Turn c stopped m none { m with lastError := some e.message }
  /-- All attempts of an open episode have failed. -/
  | givenUp (mending : m.link = .reconnecting) :
      Turn c stopped m none ((m.transition .disconnected).fire .reconnectFailed stopped)

namespace Monitor

variable (c : Settings) (m : Monitor) (now : Int) (stopped : Bool)

theorem recordProbe_ok :
    (m.recordProbe c (.ok ()) now stopped).2 = none ∧
      Turn c stopped m (some .success) (m.recordProbe c (.ok ()) now stopped).1 := by
  by_cases lost : m.isLost
  · have restores : m.recordProbe c (.ok ()) now stopped = ((m.reached now).restore stopped, none) := by
      rcases lost with h | h <;> simp only [recordProbe, reached, restore, h]
    rw [restores]
    exact ⟨rfl, .restored now lost⟩
  · have hears : m.recordProbe c (.ok ()) now stopped = ((m.reached now).transition .connected, none) := by
      unfold isLost at lost
      cases h : m.link <;> simp_all [recordProbe, reached, transition]
    rw [hears]
    exact ⟨rfl, .heard now lost⟩

/-- A failed periodic probe opens an episode once there are enough of them, unless one is open. -/
theorem recordProbe_error (e : LinkError) :
    m.recordProbe c (.error e) now stopped =
      if c.threshold ≤ m.failures + 1 ∧ m.link ≠ .reconnecting then
        ((m.missed e).lose stopped, some (m.episode + 1))
      else (m.missed e, none) := by
  unfold recordProbe lose missed
  simp

theorem turn_of_probe (result : Except LinkError Unit) :
    Turn c stopped m (some (.ofProbe result)) (m.recordProbe c result now stopped).1 := by
  cases result with
  | ok _ => exact (m.recordProbe_ok c now stopped).2
  | error e =>
    rw [recordProbe_error]
    by_cases opens : c.threshold ≤ m.failures + 1 ∧ m.link ≠ .reconnecting
    · rw [if_pos opens]
      exact .lost e opens.1 opens.2
    · rw [if_neg opens]
      refine .missed e ?_
      by_cases mending : m.link = .reconnecting
      · exact Or.inr mending
      · exact Or.inl (Nat.lt_of_not_le fun enough => opens ⟨enough, mending⟩)

theorem link_of_isOpen {episode : Nat} (isOpen : m.isOpen episode = true) : m.link = .reconnecting := by
  unfold Monitor.isOpen at isOpen
  simpa using (Bool.and_eq_true_iff.mp isOpen).2

/-- A procedure whose episode is over changes nothing, and one whose episode is open records successes
only. -/
theorem recordReconnect_cases (episode attempt : Nat) (result : Except LinkError Unit) :
    (m.isOpen episode = false ∧ (m.recordReconnect c episode attempt result now stopped).1 = m) ∨
      m.isOpen episode = true ∧
        Turn c stopped m (Recorded.ofReconnect result)
          (m.recordReconnect c episode attempt result now stopped).1 := by
  unfold recordReconnect
  cases isOpen : m.isOpen episode with
  | false => exact Or.inl ⟨rfl, rfl⟩
  | true =>
    right
    refine ⟨rfl, ?_⟩
    cases result with
    | ok _ => exact .restored now (Or.inl (m.link_of_isOpen isOpen))
    | error e => exact .refused e

end Monitor

/-! ## Parties -/

/-- A start of the monitor. -/
def System.Move.isStart : System.Move → Bool
  | .start => true
  | _ => false

namespace System

variable {c : Settings} {s : System}

/-- What a move puts on record: the result of a periodic probe, or the success of a reconnection attempt
whose episode is open. -/
def recorded? (s : System) : Move → Option Recorded
  | .probed token result _ => if s.loops.contains token then some (.ofProbe result) else none
  | .answered index result _ =>
    match s.procedures[index]? with
    | some { episode, stage := .probing _, .. } =>
      if s.monitor.isOpen episode then Recorded.ofReconnect result else none
    | _ => none
  | _ => none

/-- A loop that is running records what its probe has come to, and may leave a procedure behind. -/
theorem step_probed {token : Nat} (here : token ∈ s.loops) (result : Except LinkError Unit) (now : Int) :
    s.step c (.probed token result now) =
      { s with
        monitor := (s.monitor.recordProbe c result now (s.isStopped token)).1
        procedures := s.procedures ++
          ((s.monitor.recordProbe c result now (s.isStopped token)).2.map fun episode =>
            { token, episode, stage := Stage.before c 1 }).toList } := by
  have runs : s.loops.contains token = true := by simpa using here
  simp only [step, runs, if_true]
  cases (s.monitor.recordProbe c result now (s.isStopped token)).2 <;> simp

/-- Parties come with a start and have its token. -/
structure Numbered (s : System) : Prop where
  loops : ∀ token ∈ s.loops, token < s.starts
  procedures : ∀ p ∈ s.procedures, p.token < s.starts

/-- The move is none of a party, and it does nothing to the monitor or starts it. -/
def Idle (c : Settings) (s : System) (m : Move) : Prop :=
  s.recorded? m = none ∧
    (m = .start ∧ (s.step c m).monitor = s.monitor.start ∨
      m.isStart = false ∧ (s.step c m).monitor = s.monitor)

/-- A turn of a party, or none. -/
def Turns (c : Settings) (s : System) (m : Move) : Prop :=
  s.Idle c m ∨ ∃ token < s.starts,
    Turn c (s.isStopped token) s.monitor (s.recorded? m) (s.step c m).monitor

theorem turns_answered (h : s.Numbered) (index : Nat) (result : Except LinkError Unit) (now : Int) :
    s.Turns c (.answered index result now) := by
  by_cases asks : ∃ token episode attempt, s.procedures[index]? = some ⟨token, episode, .probing attempt⟩
  · obtain ⟨token, episode, attempt, here⟩ := asks
    have after : (s.step c (.answered index result now)).monitor =
        (s.monitor.recordReconnect c episode attempt result now (s.isStopped token)).1 := by
      simp only [step, here]
      rfl
    have recorded : s.recorded? (.answered index result now) =
        if s.monitor.isOpen episode then Recorded.ofReconnect result else none := by
      simp only [recorded?, here]
    rcases s.monitor.recordReconnect_cases c now (s.isStopped token) episode attempt result with
      ⟨closed, same⟩ | ⟨isOpen, turn⟩
    · refine Or.inl ⟨by rw [recorded, closed]; rfl, Or.inr ⟨rfl, ?_⟩⟩
      rw [after, same]
    · refine Or.inr ⟨token, h.procedures _ (List.mem_of_getElem? here), ?_⟩
      rw [after, recorded, isOpen]
      exact turn
  · left
    have nobody (token episode attempt : Nat) :
        s.procedures[index]? ≠ some ⟨token, episode, .probing attempt⟩ :=
      fun here => asks ⟨token, episode, attempt, here⟩
    exact ⟨by simp only [recorded?], Or.inr ⟨rfl, by simp only [step]⟩⟩

theorem turns_conclude (h : s.Numbered) (index : Nat) : s.Turns c (.conclude index) := by
  by_cases waits : ∃ token episode, s.procedures[index]? = some ⟨token, episode, .exhausted⟩
  · obtain ⟨token, episode, here⟩ := waits
    have after : (s.step c (.conclude index)).monitor = s.monitor.giveUp episode (s.isStopped token) := by
      simp only [step, here]
      rfl
    by_cases isOpen : s.monitor.isOpen episode = true
    · refine Or.inr ⟨token, h.procedures _ (List.mem_of_getElem? here), ?_⟩
      rw [after, Monitor.giveUp, if_pos isOpen]
      exact .givenUp (s.monitor.link_of_isOpen isOpen)
    · refine Or.inl ⟨rfl, Or.inr ⟨rfl, ?_⟩⟩
      rw [after, Monitor.giveUp, if_neg isOpen]
  · refine Or.inl ⟨rfl, Or.inr ⟨rfl, ?_⟩⟩
    simp only [step]
    split
    · rename_i here
      exact absurd ⟨_, _, here⟩ waits
    · rfl

/-- A move starts the monitor, or it does nothing to it, or it is a turn of one of the parties. -/
theorem step_turn (h : s.Numbered) (m : Move) : s.Turns c m := by
  have still {m : Move} (other : m.isStart = false) (quiet : s.recorded? m = none)
      (same : (s.step c m).monitor = s.monitor) : s.Turns c m := Or.inl ⟨quiet, Or.inr ⟨other, same⟩⟩
  cases m with
  | start => exact Or.inl ⟨rfl, Or.inl ⟨rfl, rfl⟩⟩
  | answered index result now => exact turns_answered h index result now
  | conclude index => exact turns_conclude h index
  | probed token result now =>
    by_cases here : token ∈ s.loops
    · refine Or.inr ⟨token, h.loops token here, ?_⟩
      rw [step_probed here, recorded?, if_pos (by simpa using here)]
      exact s.monitor.turn_of_probe c now (s.isStopped token) result
    · exact still rfl (by simp [recorded?, here]) (by simp [step, here])
  | stopParent => exact still rfl rfl rfl
  | stop | loopEnds token | wake index =>
    refine still rfl rfl ?_
    simp only [step]
    split <;> rfl
  | procedureEnds index =>
    refine still rfl rfl ?_
    simp only [step]
    split
    · split <;> rfl
    · split <;> rfl
    · rfl

/-! ## Starts and stop tokens -/

theorem mem_setStage {index : Nat} {stage : Stage} {p : Procedure}
    (hp : p ∈ (s.setStage index stage).procedures) : ∃ q ∈ s.procedures, q.token = p.token := by
  obtain ⟨n, hn⟩ := List.mem_iff_getElem?.mp hp
  simp only [setStage, List.getElem?_modify, Option.map_eq_map, Option.map_eq_some_iff] at hn
  obtain ⟨q, hq, rfl⟩ := hn
  refine ⟨q, List.mem_of_getElem? hq, ?_⟩
  split <;> rfl

/-- What a move does to the parties: tokens are only given out by a start, and none that has fired is taken
back. -/
structure Carries (s t : System) (m : Move) : Prop where
  starts : t.starts = s.starts + m.isStart.toNat
  loops : ∀ token ∈ t.loops, token ∈ s.loops ∨ m = .start ∧ token = s.starts
  procedures : ∀ p ∈ t.procedures, p.token ∈ s.loops ∨ ∃ q ∈ s.procedures, q.token = p.token
  stopped : ∀ token, s.isStopped token = true → t.isStopped token = true

theorem Carries.of_procedures {t : System} {m : Move} (moves : m.isStart = false) (starts : t.starts = s.starts)
    (loops : t.loops = s.loops) (fired : t.fired = s.fired) (parentFired : t.parentFired = s.parentFired)
    (procedures : ∀ p ∈ t.procedures, p.token ∈ s.loops ∨ ∃ q ∈ s.procedures, q.token = p.token) :
    Carries s t m where
  starts := by rw [starts, moves]; rfl
  loops token here := Or.inl (loops ▸ here)
  procedures := procedures
  stopped token := by unfold isStopped; rw [fired, parentFired]; exact id

theorem carries_step (s : System) (m : Move) : Carries s (s.step c m) m := by
  have same {p : Procedure} (hp : p ∈ s.procedures) : p.token ∈ s.loops ∨ ∃ q ∈ s.procedures, q.token = p.token :=
    Or.inr ⟨p, hp, rfl⟩
  have staged {t : System} {m : Move} {index : Nat} {stage : Stage} (moves : m.isStart = false)
      (parties : t.starts = s.starts ∧ t.loops = s.loops ∧ t.fired = s.fired ∧
        t.parentFired = s.parentFired ∧ t.procedures = s.procedures) : Carries s (t.setStage index stage) m := by
    obtain ⟨starts, loops, fired, parentFired, procedures⟩ := parties
    refine .of_procedures moves starts loops fired parentFired fun p hp => Or.inr ?_
    rw [← procedures]
    exact mem_setStage hp
  have still {m : Move} (moves : m.isStart = false) : Carries s s m :=
    .of_procedures moves rfl rfl rfl rfl fun p => same
  cases m with
  | start =>
    refine ⟨rfl, fun token here => ?_, fun p => same, fun _ => id⟩
    exact (List.mem_append.mp here).imp_right fun new => ⟨rfl, List.mem_singleton.mp new⟩
  | stop =>
    simp only [step]
    split
    · exact still rfl
    · refine ⟨rfl, fun token => Or.inl, fun p => same, fun token fired => ?_⟩
      unfold isStopped at *
      rcases Bool.or_eq_true_iff.mp fired with parent | own
      · exact Bool.or_eq_true_iff.mpr (Or.inl parent)
      · simp only [List.contains_cons, own, Bool.or_true]
  | stopParent => exact ⟨rfl, fun token => Or.inl, fun p => same, fun token _ => rfl⟩
  | probed token result now =>
    by_cases here : token ∈ s.loops
    · rw [step_probed here]
      refine .of_procedures rfl rfl rfl rfl rfl fun p hp => ?_
      rcases List.mem_append.mp hp with hp | hp
      · exact same hp
      · obtain ⟨episode, -, rfl⟩ := Option.map_eq_some_iff.mp (Option.mem_toList.mp hp)
        exact Or.inl here
    · simp only [step, List.contains_eq_mem, here]
      exact still rfl
  | loopEnds token =>
    simp only [step]
    split
    · exact ⟨rfl, fun token here => Or.inl (List.mem_of_mem_erase here), fun p => same, fun _ => id⟩
    · exact still rfl
  | wake index =>
    simp only [step]
    split
    · exact staged rfl ⟨rfl, rfl, rfl, rfl, rfl⟩
    · exact still rfl
  | answered index result now =>
    simp only [step]
    split
    · exact staged rfl ⟨rfl, rfl, rfl, rfl, rfl⟩
    · exact still rfl
  | conclude index =>
    simp only [step]
    split
    · exact staged rfl ⟨rfl, rfl, rfl, rfl, rfl⟩
    · exact still rfl
  | procedureEnds index =>
    simp only [step]
    split
    · split
      · exact staged rfl ⟨rfl, rfl, rfl, rfl, rfl⟩
      · exact still rfl
    · split
      · exact staged rfl ⟨rfl, rfl, rfl, rfl, rfl⟩
      · exact still rfl
    · exact still rfl

theorem Numbered.step (h : s.Numbered) (m : Move) : (s.step c m).Numbered := by
  have carries := s.carries_step (c := c) m
  have more : s.starts ≤ (s.step c m).starts := carries.starts ▸ Nat.le_add_right _ _
  constructor
  · intro token here
    rcases carries.loops token here with old | ⟨rfl, rfl⟩
    · exact Nat.lt_of_lt_of_le (h.loops token old) more
    · exact Nat.lt_succ_self _
  · intro p hp
    rcases carries.procedures p hp with loop | ⟨q, hq, same⟩
    · exact Nat.lt_of_lt_of_le (h.loops _ loop) more
    · exact same ▸ Nat.lt_of_lt_of_le (h.procedures q hq) more

/-- A system whose monitor is started once at most: its parties have the token `0`, and before the start
nothing has happened. -/
structure Single (s : System) : Prop extends s.Numbered where
  once : s.starts ≤ 1
  fresh : s.starts = 0 → s.monitor = {}

theorem Single.init : ({} : System).Single where
  loops := by simp
  procedures := by simp
  once := Nat.zero_le 1
  fresh _ := rfl

/-- The start of a monitor, or a turn of a party with the token `0`, or nothing at all. -/
theorem Single.step_turn (h : s.Single) {m : Move} (once : (s.step c m).starts ≤ 1) :
    (m = .start ∧ s.monitor = {} ∧ (s.step c m).monitor = ({} : Monitor).start ∧ s.recorded? m = none) ∨
      (m.isStart = false ∧ (s.step c m).monitor = s.monitor ∧ s.recorded? m = none) ∨
      s.starts = 1 ∧ Turn c (s.isStopped 0) s.monitor (s.recorded? m) (s.step c m).monitor := by
  rcases System.step_turn h.toNumbered m with ⟨quiet, ⟨rfl, starts⟩ | ⟨other, same⟩⟩ | ⟨token, given, turn⟩
  · have first : s.starts = 0 := Nat.le_zero.mp (Nat.le_of_succ_le_succ once)
    have fresh := h.fresh first
    exact Or.inl ⟨rfl, fresh, by rw [starts, fresh], quiet⟩
  · exact Or.inr (Or.inl ⟨other, same, quiet⟩)
  · have one : s.starts = 1 := Nat.le_antisymm h.once (Nat.lt_of_le_of_lt (Nat.zero_le token) given)
    obtain rfl : token = 0 := Nat.lt_one_iff.mp (one ▸ given)
    exact Or.inr (Or.inr ⟨one, turn⟩)

theorem Single.step (h : s.Single) {m : Move} (once : (s.step c m).starts ≤ 1) : (s.step c m).Single where
  toNumbered := h.toNumbered.step m
  once := once
  fresh none := by
    have carries := s.carries_step (c := c) m
    have before : s.starts = 0 := Nat.le_zero.mp (none ▸ carries.starts ▸ Nat.le_add_right _ _)
    rcases h.step_turn once with ⟨rfl, -⟩ | ⟨-, same, -⟩ | ⟨one, -⟩
    · cases none
    · rw [same, h.fresh before]
    · rw [before] at one
      cases one

/-! ## Runs -/

theorem run_concat (s : System) (ms : List Move) (m : Move) :
    s.run c (ms ++ [m]) = (s.run c ms).step c m := by
  simp [run]

theorem starts_run (s : System) (ms : List Move) :
    (s.run c ms).starts = s.starts + ms.countP Move.isStart := by
  induction ms using List.reverseRecOn with
  | nil => rfl
  | append_singleton ms m ih =>
    rw [run_concat, (carries_step _ m).starts, ih, List.countP_append, List.countP_singleton]
    cases m.isStart <;> rfl

/-- What holds of a monitor that nobody has started and is kept by the start, by every turn and by the stop
token, holds in every run in which the monitor is started once at most. -/
theorem induction_once {P : List Move → System → Prop} (init : P [] {})
    (step : ∀ ms m s, ({} : System).run c ms = s → s.Single → (s.step c m).starts ≤ 1 → P ms s →
      P (ms ++ [m]) (s.step c m))
    (ms : List Move) (once : ms.countP Move.isStart ≤ 1) : P ms (({} : System).run c ms) := by
  suffices h : (({} : System).run c ms).Single ∧ P ms (({} : System).run c ms) from h.2
  induction ms using List.reverseRecOn with
  | nil => exact ⟨.init, init⟩
  | append_singleton ms m ih =>
    rw [List.countP_append] at once
    obtain ⟨single, before⟩ := ih (Nat.le_of_add_right_le once)
    have starts : ((({} : System).run c ms).step c m).starts ≤ 1 := by
      rw [← run_concat, starts_run, List.countP_append, Nat.zero_add]
      exact once
    rw [run_concat]
    exact ⟨single.step starts, step ms m _ rfl single starts before⟩

theorem single_run (c : Settings) (ms : List Move) (once : ms.countP Move.isStart ≤ 1) :
    (({} : System).run c ms).Single :=
  induction_once (P := fun _ s => s.Single) .init (fun _ _ _ _ _ once single => single.step once) ms once

end System

end Courier.Health
