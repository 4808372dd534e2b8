/-
# Courier.Proofs.Health.Reconnection -- one procedure for each episode

A reconnection procedure looks at the shared state, goes to sleep or asks the gateway, and looks again. In
between its episode may have ended, and a later one may have begun that leaves the link in the very same state.
So a procedure trusts the number of its episode and not the state alone, and this module says what it gets
for that: it acts on its own episode or on none, it makes its attempts in order and not more than the settings
allow, and it gives the link up exactly when every one of them has failed in time.

`Goes` lists what a move can make of one procedure. `Standing` compares where a procedure stands with
what it has done so far, as it is read off the run.
-/
import Courier.Proofs.Health.Threshold
import Courier.Proofs.Health.Protocol

namespace Courier.Health

/-! ## Episodes that are open, and episodes that are over -/

namespace Monitor

variable {c : Settings} {m : Monitor} {episode : Nat}

theorem isOpen_iff : m.isOpen episode = true ↔ m.episode = episode ∧ m.link = .reconnecting := by
  simp [isOpen]

theorem isOpen_eq_false_iff : m.isOpen episode = false ↔ ¬(m.episode = episode ∧ m.link = .reconnecting) := by
  rw [← isOpen_iff, Bool.not_eq_true]

end Monitor

/-- No turn opens an episode that has been opened before. -/
theorem Turn.isOpen_eq_false {c : Settings} {stopped : Bool} {m m' : Monitor} {r : Option Recorded}
    (turn : Turn c stopped m r m') {episode : Nat} (old : episode ≤ m.episode)
    (closed : m.isOpen episode = false) : m'.isOpen episode = false := by
  rw [Monitor.isOpen_eq_false_iff] at closed ⊢
  rintro ⟨number, mending⟩
  have count := turn.episode
  by_cases before : m.link = .reconnecting
  · rw [before] at count
    exact closed ⟨by simpa [number] using count.symm, before⟩
  · simp only [bne_iff_ne.mpr before, mending, beq_self_eq_true, Bool.and_self, Bool.toNat_true] at count
    omega

/-- No attempt begins with its probe. -/
theorem Stage.before_ne_probing (c : Settings) (n attempt : Nat) : Stage.before c n ≠ .probing attempt := by
  unfold Stage.before
  split <;> nofun

namespace System

variable {c : Settings} {s : System}

theorem numbered_run (c : Settings) (ms : List Move) : (({} : System).run c ms).Numbered := by
  induction ms using List.reverseRecOn with
  | nil => exact System.Single.init.toNumbered
  | append_singleton ms m ih =>
    rw [run_concat]
    exact ih.step m

/-- An episode that is over stays over. -/
theorem isOpen_step_eq_false (h : s.Numbered) (m : Move) {episode : Nat} (old : episode ≤ s.monitor.episode)
    (closed : s.monitor.isOpen episode = false) : (s.step c m).monitor.isOpen episode = false := by
  rcases step_turn (c := c) h m with ⟨-, ⟨-, starts⟩ | ⟨-, same⟩⟩ | ⟨token, -, turn⟩
  · rw [starts, Monitor.isOpen_eq_false_iff]
    simp [Monitor.start]
  · rw [same]
    exact closed
  · exact turn.isOpen_eq_false old closed

theorem episode_step_le (h : s.Numbered) (m : Move) :
    s.monitor.episode ≤ (s.step c m).monitor.episode := by
  rcases step_turn (c := c) h m with ⟨-, ⟨-, starts⟩ | ⟨-, same⟩⟩ | ⟨token, -, turn⟩
  · rw [starts, Monitor.start, Monitor.episode_transition]
  · rw [same]
  · rw [turn.episode]
    exact Nat.le_add_right _ _

/-! ## What a move makes of one procedure -/

/-- A step that only the procedure with this index can take. -/
def Move.isBy (index : Nat) : Move → Bool
  | .wake i | .answered i _ _ | .conclude i | .procedureEnds i => i == index
  | _ => false

/-- Where a procedure stands. -/
def stage? (s : System) (index : Nat) : Option Stage := s.procedures[index]?.map Procedure.stage

/-- What came of one probe of a procedure. -/
structure Answer where
  /-- Was the episode still open when the result was recorded? -/
  isOpen : Bool
  failed : Bool
deriving DecidableEq, Repr

/-- A probe that has failed while the episode was open. -/
def Answer.inVain : Answer := ⟨true, true⟩

def Answer.ofResult (isOpen : Bool) : Except LinkError Unit → Answer
  | .ok _ => ⟨isOpen, false⟩
  | .error _ => ⟨isOpen, true⟩

/-- The result that a procedure records with a move. -/
def answer? (s : System) (index : Nat) : Move → Option Answer
  | .answered i result _ =>
    match s.procedures[index]? with
    | some { episode, stage := .probing _, .. } =>
      if i = index then some (.ofResult (s.monitor.isOpen episode) result) else none
    | _ => none
  | _ => none

/-- The attempt whose probe lies between two stages. -/
def begun? (before : Stage) : Stage → Option Nat
  | .probing attempt => if before = .probing attempt then none else some attempt
  | _ => none

/-- The attempt for which a procedure starts a probe with a move. -/
def begins? (c : Settings) (s : System) (index : Nat) (m : Move) : Option Nat :=
  match s.stage? index, (s.step c m).stage? index with
  | some before, some after => begun? before after
  | _, _ => none

/-- What a procedure of an episode can do in one step, told to stop or not: the stage before it, the result that
it records, the monitor and the stage after it. -/
inductive Goes (c : Settings) (stopped : Bool) (m : Monitor) (episode : Nat) :
    Stage → Option Answer → Monitor → Stage → Prop
  | woken (attempt : Nat) (isOpen : m.isOpen episode = true) :
      Goes c stopped m episode (.sleeping attempt) none m (.probing attempt)
  | resolved (attempt : Nat) (closed : m.isOpen episode = false) :
      Goes c stopped m episode (.sleeping attempt) none m .finished
  | mended (attempt : Nat) (now : Int) (isOpen : m.isOpen episode = true) :
      Goes c stopped m episode (.probing attempt) (some ⟨true, false⟩) ((m.reached now).restore stopped) .finished
  | refused (attempt : Nat) (e : LinkError) (isOpen : m.isOpen episode = true) :
      Goes c stopped m episode (.probing attempt) (some .inVain) { m with lastError := some e.message }
        (Stage.before c (attempt + 1))
  | overtaken (attempt : Nat) (answer : Answer) (late : answer.isOpen = false) :
      Goes c stopped m episode (.probing attempt) (some answer) m .finished
  | gaveUp (isOpen : m.isOpen episode = true) :
      Goes c stopped m episode .exhausted none ((m.transition .disconnected).fire .reconnectFailed stopped) .finished
  | tooLate (closed : m.isOpen episode = false) : Goes c stopped m episode .exhausted none m .finished
  | endedAsleep (attempt : Nat) : Goes c stopped m episode (.sleeping attempt) none m .finished
  | endedProbing (attempt : Nat) : Goes c stopped m episode (.probing attempt) none m .finished

theorem getElem?_setStage (s : System) (index other : Nat) (stage : Stage) :
    (s.setStage index stage).procedures[other]? =
      if index = other then s.procedures[other]?.map fun p => { p with stage } else s.procedures[other]? := by
  simp only [setStage, List.getElem?_modify, Option.map_eq_map]
  split
  · rfl
  · simp

theorem stage?_setStage (s : System) (index : Nat) (stage : Stage) :
    (s.setStage index stage).stage? index = (s.stage? index).map fun _ => stage := by
  rw [stage?, getElem?_setStage, if_pos rfl, stage?, Option.map_map, Option.map_map]
  rfl

/-- A move adds procedures at the end, which stand before their first attempt, or it is the step of one of
them. -/
theorem procedures_step (c : Settings) (s : System) (m : Move) :
    (∃ opened, (s.step c m).procedures = s.procedures ++ opened ∧ ∀ p ∈ opened, p.stage = Stage.before c 1) ∨
      ∃ index stage, m.isBy index = true ∧ (s.step c m).procedures = (s.setStage index stage).procedures := by
  have still {t : System} (same : t.procedures = s.procedures) :
      (∃ opened, t.procedures = s.procedures ++ opened ∧ ∀ p ∈ opened, p.stage = Stage.before c 1) ∨
        ∃ index stage, m.isBy index = true ∧ t.procedures = (s.setStage index stage).procedures :=
    Or.inl ⟨[], by rw [same, List.append_nil], by simp⟩
  cases m with
  | start | stopParent => exact still rfl
  | stop | loopEnds token =>
    simp only [step]
    split <;> exact still rfl
  | probed token result now =>
    by_cases runs : token ∈ s.loops
    · rw [step_probed runs]
      refine Or.inl ⟨_, rfl, fun p hp => ?_⟩
      obtain ⟨episode, -, rfl⟩ := Option.map_eq_some_iff.mp (Option.mem_toList.mp hp)
      rfl
    · exact still (by simp [step, runs])
  | wake i | answered i result now | conclude i =>
    simp only [step]
    split
    · exact Or.inr ⟨i, _, beq_self_eq_true i, rfl⟩
    · exact still rfl
  | procedureEnds i =>
    simp only [step]
    split
    · split
      · exact Or.inr ⟨i, _, beq_self_eq_true i, rfl⟩
      · exact still rfl
    · split
      · exact Or.inr ⟨i, _, beq_self_eq_true i, rfl⟩
      · exact still rfl
    · exact still rfl

/-- A procedure does not move while others do. -/
theorem getElem?_step_of_not_isBy {m : Move} {index : Nat} {p : Procedure}
    (here : s.procedures[index]? = some p) (other : m.isBy index = false) :
    (s.step c m).procedures[index]? = some p := by
  rcases procedures_step c s m with ⟨opened, adds, -⟩ | ⟨i, stage, own, steps⟩
  · rw [adds, List.getElem?_append_left (List.getElem?_eq_some_iff.mp here).1]
    exact here
  · have ne : i ≠ index := by
      rintro rfl
      rw [other] at own
      cases own
    rw [steps, getElem?_setStage, if_neg ne]
    exact here

/-- A procedure that is new stands before its first attempt. -/
theorem stage_of_new {m : Move} {index : Nat} {p : Procedure} (absent : s.procedures[index]? = none)
    (here : (s.step c m).procedures[index]? = some p) : p.stage = Stage.before c 1 := by
  rcases procedures_step c s m with ⟨opened, adds, new⟩ | ⟨i, stage, own, steps⟩
  · rw [adds, List.getElem?_append_right (List.getElem?_eq_none_iff.mp absent)] at here
    exact new p (List.mem_of_getElem? here)
  · rw [steps, getElem?_setStage, absent] at here
    simp at here

theorem stage?_procedureEnds (c : Settings) (s : System) (index : Nat) :
    (s.step c (.procedureEnds index)).stage? index = s.stage? index ∨
      (s.step c (.procedureEnds index)).stage? index = (s.stage? index).map fun _ => .finished := by
  simp only [step]
  split
  · split
    · exact Or.inr (stage?_setStage s index .finished)
    · exact Or.inl rfl
  · split
    · exact Or.inr (stage?_setStage s index .finished)
    · exact Or.inl rfl
  · exact Or.inl rfl

theorem stage?_wake {index attempt : Nat} (here : s.stage? index = some (.sleeping attempt)) :
    (s.step c (.wake index)).stage? index = some (.probing attempt) ∨
      (s.step c (.wake index)).stage? index = some .finished := by
  obtain ⟨⟨token, episode, _⟩, there, rfl⟩ := Option.map_eq_some_iff.mp here
  simp only [step, there, stage?_setStage, here, Option.map_some, Monitor.wake]
  split
  · exact Or.inl rfl
  · exact Or.inr rfl

theorem stage?_answered {index attempt : Nat} (here : s.stage? index = some (.probing attempt))
    (result : Except LinkError Unit) (now : Int) :
    (s.step c (.answered index result now)).stage? index = some .finished ∨
      (s.step c (.answered index result now)).stage? index = some (Stage.before c (attempt + 1)) := by
  obtain ⟨⟨token, episode, _⟩, there, rfl⟩ := Option.map_eq_some_iff.mp here
  have same (monitor : Monitor) : ({ s with monitor } : System).stage? index = s.stage? index := rfl
  simp only [step, there, stage?_setStage, same, here, Option.map_some, Monitor.recordReconnect]
  cases s.monitor.isOpen episode with
  | false => exact Or.inl rfl
  | true =>
    cases result with
    | ok _ => exact Or.inl rfl
    | error e => exact Or.inr rfl

theorem stage?_conclude {index : Nat} (here : s.stage? index = some .exhausted) :
    (s.step c (.conclude index)).stage? index = some .finished := by
  obtain ⟨⟨token, episode, _⟩, there, rfl⟩ := Option.map_eq_some_iff.mp here
  have same (monitor : Monitor) : ({ s with monitor } : System).stage? index = s.stage? index := rfl
  simp only [step, there, stage?_setStage, same, here, Option.map_some]

theorem answer?_of_not_isBy {m : Move} {index : Nat} (other : m.isBy index = false) :
    s.answer? index m = none := by
  cases m with
  | answered i result now =>
    have ne : i ≠ index := by simpa [Move.isBy] using other
    simp only [answer?, ne, if_false]
    split <;> rfl
  | _ => rfl

/-- Nobody is there to take the step. -/
theorem step_of_absent {m : Move} {index : Nat} (absent : s.procedures[index]? = none)
    (own : m.isBy index = true) : s.step c m = s := by
  cases m with
  | start | stop | stopParent | probed | loopEnds => cases own
  | wake i | answered i result now | conclude i | procedureEnds i =>
    obtain rfl : i = index := by simpa [Move.isBy] using own
    simp only [step, absent]

/-- A procedure that takes a step does one of the things that `Goes` lists, or nothing. -/
theorem goes_of_isBy {m : Move} {index : Nat} {p : Procedure} (here : s.procedures[index]? = some p)
    (own : m.isBy index = true) :
    (s.step c m = s ∧ s.answer? index m = none) ∨
      ∃ monitor stage, s.step c m = ({ s with monitor }).setStage index stage ∧
        Goes c (s.isStopped p.token) s.monitor p.episode p.stage (s.answer? index m) monitor stage := by
  obtain ⟨token, episode, stage⟩ := p
  cases m with
  | start | stop | stopParent | probed | loopEnds => cases own
  | wake i =>
    obtain rfl : i = index := by simpa [Move.isBy] using own
    cases stage with
    | sleeping attempt =>
      refine Or.inr ⟨s.monitor, s.monitor.wake episode attempt, by simp only [step, here], ?_⟩
      unfold Monitor.wake
      cases isOpen : s.monitor.isOpen episode with
      | true => exact .woken attempt isOpen
      | false => exact .resolved attempt isOpen
    | probing | exhausted | finished => exact Or.inl ⟨by simp only [step, here], rfl⟩
  | answered i result now =>
    obtain rfl : i = index := by simpa [Move.isBy] using own
    cases stage with
    | probing attempt =>
      refine Or.inr ⟨_, _, by simp only [step, here]; rfl, ?_⟩
      simp only [answer?, here, if_true, Monitor.recordReconnect]
      cases isOpen : s.monitor.isOpen episode with
      | false => cases result <;> exact .overtaken attempt _ rfl
      | true =>
        cases result with
        | ok _ => exact .mended attempt now isOpen
        | error e => exact .refused attempt e isOpen
    | sleeping | exhausted | finished => exact Or.inl ⟨by simp only [step, here], by simp only [answer?, here]⟩
  | conclude i =>
    obtain rfl : i = index := by simpa [Move.isBy] using own
    cases stage with
    | exhausted =>
      refine Or.inr ⟨_, .finished, by simp only [step, here]; rfl, ?_⟩
      unfold Monitor.giveUp
      cases isOpen : s.monitor.isOpen episode with
      | true => exact .gaveUp isOpen
      | false => exact .tooLate isOpen
    | sleeping | probing | finished => exact Or.inl ⟨by simp only [step, here], rfl⟩
  | procedureEnds i =>
    obtain rfl : i = index := by simpa [Move.isBy] using own
    cases stage with
    | sleeping attempt =>
      by_cases stopped : s.isStopped token = true
      · exact Or.inr ⟨s.monitor, .finished, by simp only [step, here, stopped, if_true], .endedAsleep attempt⟩
      · exact Or.inl ⟨by simp only [step, here, stopped]; rfl, rfl⟩
    | probing attempt =>
      by_cases stopped : s.isStopped token = true
      · exact Or.inr ⟨s.monitor, .finished, by simp only [step, here, stopped, if_true], .endedProbing attempt⟩
      · exact Or.inl ⟨by simp only [step, here, stopped]; rfl, rfl⟩
    | exhausted | finished => exact Or.inl ⟨by simp only [step, here], rfl⟩

theorem length_setStage (s : System) (index : Nat) (stage : Stage) :
    (s.setStage index stage).procedures.length = s.procedures.length := by
  rw [setStage, List.length_modify]

theorem length_procedures_of_isBy {m : Move} {index : Nat} (own : m.isBy index = true) :
    (s.step c m).procedures.length = s.procedures.length := by
  cases here : s.procedures[index]? with
  | none => rw [step_of_absent here own]
  | some p =>
    rcases goes_of_isBy (c := c) here own with ⟨same, -⟩ | ⟨monitor, stage, steps, -⟩
    · rw [same]
    · rw [steps, length_setStage]

/-- A procedure has no say in where another one stands. -/
theorem stage?_of_isBy {m : Move} {index other : Nat} (own : m.isBy index = true) (ne : index ≠ other) :
    (s.step c m).stage? other = s.stage? other := by
  cases here : s.procedures[index]? with
  | none => rw [step_of_absent here own]
  | some p =>
    rcases goes_of_isBy (c := c) here own with ⟨same, -⟩ | ⟨monitor, stage, steps, -⟩
    · rw [same]
    · rw [steps, stage?, getElem?_setStage, if_neg ne]
      rfl

/-- A procedure writes to the monitor only while its episode is open. -/
theorem Goes.isOpen_of_ne {stopped : Bool} {m m' : Monitor} {episode : Nat} {answer : Option Answer}
    {stage stage' : Stage} (goes : Goes c stopped m episode stage answer m' stage') (writes : m' ≠ m) :
    m.isOpen episode = true := by
  cases goes with
  | mended attempt now isOpen => exact isOpen
  | refused attempt e isOpen => exact isOpen
  | gaveUp isOpen => exact isOpen
  | woken | resolved | overtaken | tooLate | endedAsleep | endedProbing => exact absurd rfl writes

theorem isOpen_of_isBy {m : Move} {index : Nat} {p : Procedure} (here : s.procedures[index]? = some p)
    (own : m.isBy index = true) (writes : (s.step c m).monitor ≠ s.monitor) :
    s.monitor.isOpen p.episode = true := by
  rcases goes_of_isBy (c := c) here own with ⟨same, -⟩ | ⟨monitor, stage, steps, goes⟩
  · rw [same] at writes
    exact absurd rfl writes
  · refine goes.isOpen_of_ne fun same => writes ?_
    rw [steps, same]
    rfl

/-! ## One procedure for each episode -/

theorem map_episode_setStage (s : System) (index : Nat) (stage : Stage) :
    (s.setStage index stage).procedures.map Procedure.episode = s.procedures.map Procedure.episode := by
  refine List.ext_getElem? fun i => ?_
  rw [List.getElem?_map, List.getElem?_map, getElem?_setStage]
  split
  · rw [Option.map_map]
    rfl
  · rfl

theorem Goes.episode {stopped : Bool} {m m' : Monitor} {episode : Nat} {answer : Option Answer}
    {stage stage' : Stage} (goes : Goes c stopped m episode stage answer m' stage') : m'.episode = m.episode := by
  cases goes <;> simp [Monitor.restore, Monitor.reached]

/-- A periodic probe opens no episode, or the next one. -/
theorem recordProbe_opens (c : Settings) (m : Monitor) (result : Except LinkError Unit) (now : Int)
    (stopped : Bool) :
    ((m.recordProbe c result now stopped).2 = none ∧
        (m.recordProbe c result now stopped).1.episode = m.episode) ∨
      (m.recordProbe c result now stopped).2 = some (m.episode + 1) ∧
        (m.recordProbe c result now stopped).1.episode = m.episode + 1 := by
  cases result with
  | ok _ =>
    obtain ⟨none, turn⟩ := m.recordProbe_ok c now stopped
    refine Or.inl ⟨none, ?_⟩
    generalize (m.recordProbe c (.ok ()) now stopped).1 = m' at turn
    cases turn <;> simp [Monitor.reached, Monitor.restore]
  | error e =>
    rw [Monitor.recordProbe_error]
    split
    · exact Or.inr ⟨rfl, by simp [Monitor.lose, Monitor.missed]⟩
    · exact Or.inl ⟨rfl, rfl⟩

/-- Procedures are numbered by their episodes, which are those that have been opened so far. -/
def Staffed (s : System) : Prop :=
  s.procedures.map Procedure.episode = List.range' 1 s.monitor.episode

theorem Staffed.step (h : s.Staffed) (m : Move) : (s.step c m).Staffed := by
  unfold Staffed at *
  have still {t : System} (procedures : t.procedures = s.procedures)
      (episode : t.monitor.episode = s.monitor.episode) :
      t.procedures.map Procedure.episode = List.range' 1 t.monitor.episode := by
    rw [procedures, episode]
    exact h
  have moved {index : Nat} (own : m.isBy index = true) :
      (s.step c m).procedures.map Procedure.episode = List.range' 1 (s.step c m).monitor.episode := by
    cases here : s.procedures[index]? with
    | none =>
      rw [step_of_absent here own]
      exact h
    | some p =>
      rcases goes_of_isBy (c := c) here own with ⟨same, -⟩ | ⟨monitor, stage, steps, goes⟩
      · rw [same]
        exact h
      · rw [steps, map_episode_setStage]
        show _ = List.range' 1 monitor.episode
        rw [goes.episode]
        exact h
  cases m with
  | start => exact still rfl (by simp [System.step, Monitor.start])
  | stopParent => exact still rfl rfl
  | stop | loopEnds token =>
    simp only [System.step]
    split <;> exact still rfl rfl
  | probed token result now =>
    by_cases runs : token ∈ s.loops
    · rw [step_probed runs, List.map_append, h]
      rcases recordProbe_opens c s.monitor result now (s.isStopped token) with ⟨none, same⟩ | ⟨opens, next⟩
      · rw [none, same]
        simp
      · rw [opens, next, List.range'_1_concat, Nat.add_comm 1]
        rfl
    · exact still (by simp [System.step, runs]) (by simp [System.step, runs])
  | wake i | answered i result now | conclude i | procedureEnds i => exact moved (beq_self_eq_true i)

theorem staffed_run (c : Settings) (ms : List Move) : (({} : System).run c ms).Staffed := by
  induction ms using List.reverseRecOn with
  | nil => rfl
  | append_singleton ms m ih =>
    rw [run_concat]
    exact ih.step m

/-- The episode of a procedure has been opened. -/
theorem Staffed.episode_le (h : s.Staffed) {index : Nat} {p : Procedure}
    (here : s.procedures[index]? = some p) : p.episode ≤ s.monitor.episode := by
  have listed : p.episode ∈ List.range' 1 s.monitor.episode :=
    h ▸ List.mem_map_of_mem (List.mem_of_getElem? here)
  have := List.mem_range'_1.mp listed
  omega

/-! ## What a procedure has done when it stands where it stands -/

/-- The attempts for which a procedure has started a probe in a run. -/
def probes (c : Settings) (s : System) (ms : List Move) (index : Nat) : List Nat :=
  (s.steps c ms).filterMap fun p => p.1.begins? c index p.2

/-- The results that a procedure has recorded in a run. -/
def answers (c : Settings) (s : System) (ms : List Move) (index : Nat) : List Answer :=
  (s.steps c ms).filterMap fun p => p.1.answer? index p.2

theorem probes_concat (c : Settings) (s : System) (ms : List Move) (m : Move) (index : Nat) :
    s.probes c (ms ++ [m]) index = s.probes c ms index ++ ((s.run c ms).begins? c index m).toList := by
  rw [probes, steps_concat, List.filterMap_append]
  cases h : (s.run c ms).begins? c index m <;> simp [probes, h]

theorem answers_concat (c : Settings) (s : System) (ms : List Move) (m : Move) (index : Nat) :
    s.answers c (ms ++ [m]) index = s.answers c ms index ++ ((s.run c ms).answer? index m).toList := by
  rw [answers, steps_concat, List.filterMap_append]
  cases h : (s.run c ms).answer? index m <;> simp [answers, h]

/-- A procedure has made its attempts in order, and while it goes on all of them have been in vain. One that has
finished has not failed throughout, or its episode is over. -/
inductive Standing (c : Settings) (isOpen : Bool) : Stage → List Nat → List Answer → Prop
  | sleeping (n : Nat) (more : n < c.maxRetries) :
      Standing c isOpen (.sleeping (n + 1)) (List.range' 1 n) (List.replicate n .inVain)
  | probing (n : Nat) (more : n < c.maxRetries) :
      Standing c isOpen (.probing (n + 1)) (List.range' 1 (n + 1)) (List.replicate n .inVain)
  | exhausted :
      Standing c isOpen .exhausted (List.range' 1 c.maxRetries) (List.replicate c.maxRetries .inVain)
  | finished (n : Nat) (answers : List Answer) (bound : n ≤ c.maxRetries)
      (gaveWay : isOpen = true → answers ≠ List.replicate c.maxRetries .inVain) :
      Standing c isOpen .finished (List.range' 1 n) answers

namespace Standing

variable {isOpen : Bool} {stage : Stage} {probes : List Nat} {answers : List Answer}

theorem before (isOpen : Bool) {n : Nat} (bound : n ≤ c.maxRetries) :
    Standing c isOpen (Stage.before c (n + 1)) (List.range' 1 n) (List.replicate n .inVain) := by
  unfold Stage.before
  split
  · rename_i more
    exact .sleeping n more
  · rename_i last
    obtain rfl : n = c.maxRetries := Nat.le_antisymm bound (Nat.le_of_lt_succ (Nat.lt_of_not_le last))
    exact .exhausted

/-- An episode that ends does no harm to where its procedure stands. -/
theorem mono {later : Bool} (h : Standing c isOpen stage probes answers) (still : later = true → isOpen = true) :
    Standing c later stage probes answers := by
  cases h with
  | sleeping n more => exact .sleeping n more
  | probing n more => exact .probing n more
  | exhausted => exact .exhausted
  | finished n answers bound gaveWay => exact .finished n answers bound fun isOpen => gaveWay (still isOpen)

theorem bounded (h : Standing c isOpen stage probes answers) :
    ∃ n ≤ c.maxRetries, probes = List.range' 1 n := by
  cases h with
  | sleeping n more => exact ⟨n, Nat.le_of_lt more, rfl⟩
  | probing n more => exact ⟨n + 1, more, rfl⟩
  | exhausted => exact ⟨_, Nat.le_refl _, rfl⟩
  | finished n answers bound gaveWay => exact ⟨n, bound, rfl⟩

/-- With every attempt made in vain and the episode still open, the last look is all that is left. -/
theorem exhausted_iff (h : Standing c isOpen stage probes answers) (still : isOpen = true) :
    stage = .exhausted ↔ answers = List.replicate c.maxRetries .inVain := by
  have fewer {n : Nat} (more : n < c.maxRetries) :
      List.replicate n Answer.inVain ≠ List.replicate c.maxRetries .inVain := by
    intro same
    have := congrArg List.length same
    simp only [List.length_replicate] at this
    omega
  cases h with
  | sleeping n more => exact iff_of_false nofun (fewer more)
  | probing n more => exact iff_of_false nofun (fewer more)
  | exhausted => exact iff_of_true rfl rfl
  | finished n answers bound gaveWay => exact iff_of_false nofun (gaveWay still)

end Standing

section

variable {stopped : Bool} {m m' : Monitor} {episode : Nat} {answer : Option Answer} {stage stage' : Stage}

/-- What a step makes of an open episode: a step after which it is open has not ended it. -/
theorem Goes.isOpen (goes : Goes c stopped m episode stage answer m' stage') (still : m'.isOpen episode = true) :
    m.isOpen episode = true := by
  by_contra closed
  by_cases writes : m' = m
  · exact closed (writes ▸ still)
  · exact closed (goes.isOpen_of_ne writes)

theorem begun?_self (stage : Stage) : begun? stage stage = none := by
  cases stage <;> simp [begun?]

theorem begun?_before (stage : Stage) (n : Nat) : begun? stage (Stage.before c n) = none := by
  unfold Stage.before
  split <;> rfl

theorem Goes.standing {probes : List Nat} {answers : List Answer}
    (goes : Goes c stopped m episode stage answer m' stage')
    (h : Standing c (m.isOpen episode) stage probes answers) :
    Standing c (m'.isOpen episode) stage'
      (probes ++ (begun? stage stage').toList) (answers ++ answer.toList) := by
  -- One more answer that is not in vain spoils the whole list.
  have spoilt {answers : List Answer} {last : Answer} (other : last ≠ .inVain) :
      answers ++ [last] ≠ List.replicate c.maxRetries .inVain := by
    intro same
    have listed : last ∈ List.replicate c.maxRetries Answer.inVain := same ▸ List.mem_append_right _ (.head _)
    exact other (List.eq_of_mem_replicate listed)
  have fewer {n : Nat} (more : n < c.maxRetries) :
      List.replicate n Answer.inVain ++ [] ≠ List.replicate c.maxRetries .inVain := by
    intro same
    have := congrArg List.length same
    simp only [List.append_nil, List.length_replicate] at this
    omega
  cases goes with
  | woken attempt isOpen =>
    cases h with
    | sleeping n more =>
      have next : List.range' 1 n ++ [n + 1] = List.range' 1 (n + 1) := by
        rw [List.range'_1_concat, Nat.add_comm 1]
      simpa [begun?, next] using @Standing.probing c (m.isOpen episode) n more
  | resolved attempt closed | endedAsleep attempt =>
    cases h with
    | sleeping n more =>
      simp only [begun?, Option.toList_none, List.append_nil]
      exact .finished n _ (Nat.le_of_lt more) fun _ => by simpa using fewer more
  | endedProbing attempt =>
    cases h with
    | probing n more =>
      simp only [begun?, Option.toList_none, List.append_nil]
      exact .finished (n + 1) _ more fun _ => by simpa using fewer more
  | mended attempt now isOpen =>
    cases h with
    | probing n more =>
      simp only [begun?, Option.toList_none, List.append_nil]
      exact .finished (n + 1) _ more fun _ => spoilt (by decide)
  | overtaken attempt answer late =>
    cases h with
    | probing n more =>
      simp only [begun?, Option.toList_none, List.append_nil]
      refine .finished (n + 1) _ more fun _ => spoilt ?_
      rintro rfl
      cases late
  | refused attempt e isOpen =>
    cases h with
    | probing n more =>
      rw [begun?_before]
      simp only [Option.toList_none, Option.toList_some, List.append_nil, ← List.replicate_succ']
      exact .before _ more
  | gaveUp isOpen =>
    cases h with
    | exhausted =>
      simp only [begun?, Option.toList_none, List.append_nil]
      refine .finished _ _ (Nat.le_refl _) fun still => ?_
      rw [Monitor.isOpen_iff] at still
      simp at still
  | tooLate closed =>
    cases h with
    | exhausted =>
      simp only [begun?, Option.toList_none, List.append_nil]
      exact .finished _ _ (Nat.le_refl _) fun still => by rw [closed] at still; cases still

end

theorem answer?_of_absent {index : Nat} (absent : s.procedures[index]? = none) (m : Move) :
    s.answer? index m = none := by
  cases m <;> simp [answer?, absent]

theorem begins?_eq {m : Move} {index : Nat} {p q : Procedure} (before : s.procedures[index]? = some p)
    (after : (s.step c m).procedures[index]? = some q) : s.begins? c index m = begun? p.stage q.stage := by
  simp only [begins?, stage?, before, after, Option.map_some]

/-- A step of any party keeps the account of a procedure that is there. -/
theorem Standing.step {index : Nat} {p : Procedure} {probes : List Nat} {answers : List Answer}
    (h : Standing c (s.monitor.isOpen p.episode) p.stage probes answers) (numbered : s.Numbered)
    (staffed : s.Staffed) (here : s.procedures[index]? = some p) (m : Move) :
    ∃ q, (s.step c m).procedures[index]? = some q ∧
      Standing c ((s.step c m).monitor.isOpen q.episode) q.stage (probes ++ (s.begins? c index m).toList)
        (answers ++ (s.answer? index m).toList) := by
  by_cases own : m.isBy index = true
  · rcases goes_of_isBy (c := c) here own with ⟨same, unanswered⟩ | ⟨monitor, stage, steps, goes⟩
    · have after : (s.step c m).procedures[index]? = some p := by rw [same, here]
      refine ⟨p, after, ?_⟩
      rw [begins?_eq here after, begun?_self, unanswered, same]
      simpa using h
    · have after : (s.step c m).procedures[index]? = some { p with stage } := by
        rw [steps, getElem?_setStage, if_pos rfl]
        show (s.procedures[index]?).map _ = _
        rw [here]
        rfl
      refine ⟨_, after, ?_⟩
      rw [begins?_eq here after, show (s.step c m).monitor = monitor by rw [steps]; rfl]
      exact goes.standing h
  · rw [Bool.not_eq_true] at own
    have after := getElem?_step_of_not_isBy (c := c) here own
    refine ⟨p, after, ?_⟩
    rw [begins?_eq here after, begun?_self, answer?_of_not_isBy own]
    have kept : Standing c ((s.step c m).monitor.isOpen p.episode) p.stage probes answers := by
      refine h.mono fun still => ?_
      by_contra closed
      rw [isOpen_step_eq_false numbered m (staffed.episode_le here) (Bool.not_eq_true _ ▸ closed)] at still
      cases still
    simpa using kept

/-- Where a procedure stands after a run says what it has done in it. -/
theorem standing_run (c : Settings) (ms : List Move) (index : Nat) :
    ((({} : System).run c ms).procedures[index]? = none →
        ({} : System).probes c ms index = [] ∧ ({} : System).answers c ms index = []) ∧
      ∀ p, (({} : System).run c ms).procedures[index]? = some p →
        Standing c ((({} : System).run c ms).monitor.isOpen p.episode) p.stage (({} : System).probes c ms index)
          (({} : System).answers c ms index) := by
  induction ms using List.reverseRecOn with
  | nil => exact ⟨fun _ => ⟨rfl, rfl⟩, nofun⟩
  | append_singleton ms m ih =>
    obtain ⟨absent, present⟩ := ih
    rw [run_concat, probes_concat, answers_concat]
    cases here : (({} : System).run c ms).procedures[index]? with
    | none =>
      obtain ⟨noProbes, noAnswers⟩ := absent here
      have begins : (({} : System).run c ms).begins? c index m = none := by
        simp only [begins?, stage?, here, Option.map_none]
      rw [noProbes, noAnswers, begins, answer?_of_absent here]
      refine ⟨fun _ => ⟨rfl, rfl⟩, fun p new => ?_⟩
      rw [stage_of_new here new]
      exact .before _ (Nat.zero_le _)
    | some p =>
      obtain ⟨q, after, standing⟩ := (present p here).step (numbered_run c ms) (staffed_run c ms) here m
      rw [after]
      refine ⟨nofun, fun q' same => ?_⟩
      obtain rfl := Option.some.inj same
      exact standing

/-! ## Giving up -/

/-- Does this move end the episode as one that was given up? -/
def givesUp (c : Settings) (s : System) (episode : Nat) (m : Move) : Bool :=
  s.monitor.isOpen episode && (s.step c m).monitor.link == .disconnected

/-- How often an episode is given up in a run. -/
def surrenders (c : Settings) (s : System) (ms : List Move) (episode : Nat) : Nat :=
  (s.steps c ms).countP fun p => p.1.givesUp c episode p.2

theorem surrenders_concat (c : Settings) (s : System) (ms : List Move) (m : Move) (episode : Nat) :
    s.surrenders c (ms ++ [m]) episode =
      s.surrenders c ms episode + ((s.run c ms).givesUp c episode m).toNat := by
  rw [surrenders, steps_concat, List.countP_append, List.countP_singleton]
  cases (s.run c ms).givesUp c episode m <;> rfl

theorem givesUp_iff {m : Move} {episode : Nat} :
    s.givesUp c episode m = true ↔
      s.monitor.isOpen episode = true ∧ (s.step c m).monitor.link = .disconnected := by
  rw [givesUp, Bool.and_eq_true, beq_iff_eq]

/-- An episode that has been given up is over. -/
theorem surrenders_run (c : Settings) (ms : List Move) (episode : Nat) :
    ({} : System).surrenders c ms episode = 0 ∨
      ({} : System).surrenders c ms episode = 1 ∧ episode ≤ (({} : System).run c ms).monitor.episode ∧
        (({} : System).run c ms).monitor.isOpen episode = false := by
  induction ms using List.reverseRecOn with
  | nil => exact Or.inl rfl
  | append_singleton ms m ih =>
    rw [run_concat, surrenders_concat]
    have numbered := numbered_run c ms
    generalize ({} : System).run c ms = s at ih numbered ⊢
    have more : s.monitor.episode ≤ (s.step c m).monitor.episode := episode_step_le numbered m
    rcases ih with none | ⟨once, old, closed⟩
    · cases gives : s.givesUp c episode m with
      | false => exact Or.inl (by rw [none]; rfl)
      | true =>
        obtain ⟨isOpen, link⟩ := givesUp_iff.mp gives
        refine Or.inr ⟨by rw [none]; rfl, ?_, ?_⟩
        · rw [← (Monitor.isOpen_iff.mp isOpen).1]
          exact more
        · rw [Monitor.isOpen_eq_false_iff, link]
          exact fun h => nomatch h.2
    · have gives : s.givesUp c episode m = false := by rw [givesUp, closed, Bool.false_and]
      refine Or.inr ⟨by rw [once, gives]; rfl, Nat.le_trans old more, ?_⟩
      exact isOpen_step_eq_false numbered m old closed

/-- A procedure that has used up its attempts does nothing but look once more. -/
theorem eq_conclude_of_exhausted {m : Move} {index : Nat} {p : Procedure}
    (here : s.procedures[index]? = some p) (last : p.stage = .exhausted) (own : m.isBy index = true) :
    m = .conclude index ∨ s.step c m = s := by
  obtain ⟨token, episode, stage⟩ := p
  obtain rfl : stage = .exhausted := last
  cases m with
  | start | stop | stopParent | probed | loopEnds => cases own
  | conclude i => exact Or.inl (by simpa [Move.isBy] using own)
  | wake i | answered i result now | procedureEnds i =>
    obtain rfl : i = index := by simpa [Move.isBy] using own
    exact Or.inr (by simp only [step, here])

/-- While an episode is open its link is being mended, so a step without effect does not give it up. -/
theorem link_ne_of_isOpen {episode : Nat} (isOpen : s.monitor.isOpen episode = true) :
    s.monitor.link ≠ .disconnected := by
  rw [(Monitor.isOpen_iff.mp isOpen).2]
  nofun

/-- The step by which a procedure gives its episode up is its last look, after all its attempts. -/
theorem exhausted_of_givesUp {m : Move} {index : Nat} {p : Procedure} (here : s.procedures[index]? = some p)
    (own : m.isBy index = true) (gives : s.givesUp c p.episode m = true) :
    m = .conclude index ∧ p.stage = .exhausted := by
  obtain ⟨isOpen, link⟩ := givesUp_iff.mp gives
  have acts : s.step c m ≠ s := fun same => link_ne_of_isOpen isOpen (by rwa [same] at link)
  suffices last : p.stage = .exhausted from
    ⟨(eq_conclude_of_exhausted here last own).resolve_right acts, last⟩
  obtain ⟨monitor, stage, steps, goes⟩ := (goes_of_isBy (c := c) here own).resolve_left fun h => acts h.1
  have after : monitor.link = .disconnected := by rwa [steps] at link
  generalize p.stage = before, s.answer? index m = answer at goes ⊢
  cases goes with
  | gaveUp | tooLate => rfl
  | mended => simp [Monitor.restore] at after
  | woken | resolved | refused | overtaken | endedAsleep | endedProbing =>
    exact absurd after (link_ne_of_isOpen isOpen)

/-- The last look of a procedure while its episode is open. -/
theorem givesUp_conclude {index : Nat} {p : Procedure} (here : s.procedures[index]? = some p)
    (last : p.stage = .exhausted) (isOpen : s.monitor.isOpen p.episode = true) :
    s.givesUp c p.episode (.conclude index) = true ∧
      (s.isStopped p.token = false →
        (s.step c (.conclude index)).monitor.signals = s.monitor.signals ++ [.reconnectFailed]) := by
  obtain ⟨token, episode, stage⟩ := p
  obtain rfl : stage = .exhausted := last
  have after : (s.step c (.conclude index)).monitor =
      (s.monitor.transition .disconnected).fire .reconnectFailed (s.isStopped token) := by
    simp only [step, here, setStage, Monitor.giveUp]
    exact if_pos isOpen
  constructor
  · rw [givesUp_iff, after]
    exact ⟨isOpen, by simp⟩
  · intro runs
    rw [after, show s.isStopped token = false from runs, Monitor.signals_fire]
    simp [Monitor.signals]

/-- A procedure that has not been told to stop gives its episode up, and says so, with its last look, if all its
attempts were in vain and the episode is still open. -/
theorem givesUp_iff_of_isBy {ms : List Move} {m : Move} {index : Nat} {p : Procedure}
    (here : (({} : System).run c ms).procedures[index]? = some p) (own : m.isBy index = true)
    (runs : (({} : System).run c ms).isStopped p.token = false) :
    let s := ({} : System).run c ms
    (s.givesUp c p.episode m = true ∧ (s.step c m).monitor.signals = s.monitor.signals ++ [.reconnectFailed]) ↔
      m = .conclude index ∧ ({} : System).answers c ms index = List.replicate c.maxRetries .inVain ∧
        s.monitor.isOpen p.episode = true := by
  intro s
  have standing := (standing_run c ms index).2 p here
  constructor
  · rintro ⟨gives, -⟩
    obtain ⟨rfl, last⟩ := exhausted_of_givesUp here own gives
    have isOpen := (givesUp_iff.mp gives).1
    exact ⟨rfl, (standing.exhausted_iff isOpen).mp last, isOpen⟩
  · rintro ⟨rfl, vain, isOpen⟩
    have gives := givesUp_conclude (c := c) here ((standing.exhausted_iff isOpen).mpr vain) isOpen
    exact ⟨gives.1, gives.2 runs⟩

end System

end Courier.Health
