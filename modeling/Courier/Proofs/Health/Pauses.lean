/-
# Courier.Proofs.Health.Pauses -- how long a procedure sleeps

The steps of the parties say in which order things can happen, and nothing about time. Here a run has a clock:
`Timeline.Act` is one step of one party on a timeline, taken when it is due, or a movement of the clock, which
waits for whoever has something to do and does not run past a timer. The parties may take their turns in any
order.

`Timeline.itinerary` notes when a procedure comes to which stage, and `Punctual` says what the notes have to do with
its timer. With this the last statement about episodes can be made, that the pauses before the attempts
are as long as they should be, and all of them are put together in `episodes_isolated_and_bounded`.
-/
import Courier.Health.Timeline
import Courier.Proofs.Health.Reconnection

namespace Courier.Health

namespace Timeline

/-! ## Acts -/

/-- One step of one party, a request from outside, or a movement of the clock. -/
inductive Act where
  | launch
  | stop
  | stopParent
  /-- The gateway goes up or down. -/
  | gateway (up : Bool)
  | ticker (index : Nat)
  | procedure (index : Nat)
  /-- A probe loop notices its stop token. -/
  | loopEnds (token : Nat)
  | procedureEnds (index : Nat)
  | wait (time : Nat)

/-- The clock may move on to a time: nobody has anything to do now, and no timer runs out before. -/
def mayWait (t : Timeline) (time : Nat) : Bool :=
  t.dueStep.isNone && decide (t.clock ≤ time) && t.timers.all fun x => decide (time ≤ x)

/-- Is there something to do for a probe loop? -/
def tickerDue (t : Timeline) (index : Nat) : Bool :=
  t.tickers[index]?.any fun k => decide (k.due ≤ t.clock)

/-- The timeline after an act; an act that is not due changes nothing. -/
def act (t : Timeline) : Act → Timeline
  | .launch => t.launch
  | .stop => t.move .stop
  | .stopParent => t.move .stopParent
  | .gateway up => { t with up }
  | .ticker index => if t.tickerDue index then t.stepTicker index else t
  | .procedure index => if t.procedureDue index then t.stepProcedure index else t
  | .loopEnds token =>
    if t.system.isStopped token then
      { t.move (.loopEnds token) with tickers := t.tickers.filter fun k => k.token ≠ token }
    else t
  | .procedureEnds index => t.move (.procedureEnds index)
  | .wait time => if t.mayWait time then { t with clock := time } else t

def run (t : Timeline) (acts : List Act) : Timeline := acts.foldl act t

theorem run_concat (t : Timeline) (acts : List Act) (a : Act) : t.run (acts ++ [a]) = (t.run acts).act a := by
  simp [run]

/-- A monitor of which nobody has heard yet, with any gateway and at any time. -/
structure Fresh (c : Settings) (t : Timeline) : Prop where
  settings : t.settings = c
  system : t.system = {}
  waits : t.waits = []

/-! ## What an act does to the system and to the timers of the procedures -/

section Fields

variable (t : Timeline) (m : System.Move)

@[simp] theorem system_move : (t.move m).system = t.system.step t.settings m := rfl

@[simp] theorem waits_move : (t.move m).waits = t.waits := rfl

@[simp] theorem clock_move : (t.move m).clock = t.clock := rfl

@[simp] theorem settings_move : (t.move m).settings = t.settings := rfl

@[simp] theorem system_startProbe : t.startProbe.2.system = t.system := by
  unfold startProbe
  cases t.replies <;> rfl

@[simp] theorem waits_startProbe : t.startProbe.2.waits = t.waits := by
  unfold startProbe
  cases t.replies <;> rfl

@[simp] theorem clock_startProbe : t.startProbe.2.clock = t.clock := by
  unfold startProbe
  cases t.replies <;> rfl

@[simp] theorem settings_startProbe : t.startProbe.2.settings = t.settings := by
  unfold startProbe
  cases t.replies <;> rfl

end Fields

/-- Time stands still, and the system takes a move or none. -/
structure Takes (t t' : Timeline) (m : Option System.Move) : Prop where
  settings : t'.settings = t.settings
  clock : t'.clock = t.clock
  system : t'.system = m.elim t.system (t.system.step t.settings)

/-- What the step of a procedure is on a timeline: nothing, setting the timer for a pause, or a move of the
system. -/
inductive ProcedureStep (t : Timeline) (index : Nat) (t' : Timeline) : Prop
  | idle (same : t' = t)
  | sleeps (attempt : Nat) (here : t.system.stage? index = some (.sleeping attempt))
      (unset : t.waits[index]? = some none)
      (sets : t' = { t with
        waits := t.waits.set index (some (.until (t.clock + backoffSecs attempt * 1000))) })
  | wakes (attempt : Nat) (timer : Waiting) (next : Option Waiting)
      (here : t.system.stage? index = some (.sleeping attempt)) (set : t.waits[index]? = some (some timer))
      (takes : Takes t t' (some (.wake index))) (waits : t'.waits = t.waits.set index next)
  | answers (attempt : Nat) (result : Except LinkError Unit)
      (here : t.system.stage? index = some (.probing attempt))
      (takes : Takes t t' (some (.answered index result t.clock))) (waits : t'.waits = t.waits.set index none)
  | concludes (here : t.system.stage? index = some .exhausted) (takes : Takes t t' (some (.conclude index)))
      (waits : t'.waits = t.waits)

theorem procedureStep (t : Timeline) (index : Nat) : ProcedureStep t index (t.stepProcedure index) := by
  unfold stepProcedure
  cases here : t.system.procedures[index]? with
  | none => exact .idle rfl
  | some p =>
    obtain ⟨token, episode, stage⟩ := p
    have at_ : t.system.stage? index = some stage := by rw [System.stage?, here]; rfl
    cases wait : t.waits[index]? with
    | none => exact .idle rfl
    | some wait? =>
      cases stage with
      | finished => exact .idle rfl
      | exhausted => exact .concludes at_ ⟨rfl, rfl, rfl⟩ rfl
      | sleeping attempt =>
        cases wait? with
        | none => exact .sleeps attempt at_ wait rfl
        | some timer =>
          simp only
          split
          · exact .wakes attempt timer _ at_ wait ⟨by simp, by simp, by simp⟩ (by simp; rfl)
          · exact .wakes attempt timer _ at_ wait ⟨rfl, rfl, rfl⟩ rfl
      | probing attempt =>
        cases wait? with
        | none => exact .idle rfl
        | some waiting =>
          cases waiting with
          | «until» time => exact .idle rfl
          | reply time reply => exact .answers attempt _ at_ ⟨rfl, rfl, rfl⟩ rfl

/-- What an act other than that of a procedure is: at most one move of the system, and procedures that are new
have no timer yet. -/
structure Passes (t t' : Timeline) (m : Option System.Move) : Prop extends Takes t t' m where
  waits : t'.waits = t.waits ++ List.replicate (t'.system.procedures.length - t.waits.length) none

/-- Every procedure has a place for its timer. -/
def Complete (t : Timeline) : Prop := t.waits.length = t.system.procedures.length

theorem Passes.of_waits {t t' : Timeline} {m : Option System.Move} (complete : t.Complete) (takes : Takes t t' m)
    (waits : t'.waits = t.waits) (same : t'.system.procedures.length = t.system.procedures.length) :
    Passes t t' m where
  toTakes := takes
  waits := by
    unfold Complete at complete
    rw [waits, same, complete, Nat.sub_self]
    simp

theorem Passes.complete {t t' : Timeline} {m : Option System.Move} (passes : Passes t t' m)
    (complete : t.Complete) : t'.Complete := by
  have more : t.system.procedures.length ≤ t'.system.procedures.length := by
    rw [passes.system]
    cases m with
    | none => exact Nat.le_refl _
    | some m =>
      rcases System.procedures_step t.settings t.system m with ⟨opened, adds, -⟩ | ⟨index, stage, -, steps⟩
      · show _ ≤ (t.system.step t.settings m).procedures.length
        rw [adds, List.length_append]
        exact Nat.le_add_right _ _
      · show _ ≤ (t.system.step t.settings m).procedures.length
        rw [steps, System.setStage, List.length_modify]
  unfold Complete at *
  rw [passes.waits, List.length_append, List.length_replicate, complete]
  omega

theorem passes_stepTicker (t : Timeline) (complete : t.Complete) (index : Nat) :
    ∃ m, Passes t (t.stepTicker index) m ∧ ∀ i, m.any (System.Move.isBy i) = false := by
  unfold stepTicker
  cases t.tickers[index]? with
  | none => exact ⟨none, .of_waits complete ⟨rfl, rfl, rfl⟩ rfl rfl, fun _ => rfl⟩
  | some ticker =>
    obtain ⟨token, nextTick, probe⟩ := ticker
    cases probe with
    | none => exact ⟨none, .of_waits complete ⟨by simp, by simp, by simp⟩ (by simp) (by simp), fun _ => rfl⟩
    | some probe =>
      exact ⟨some (.probed token (t.resultOf probe.2) t.clock), ⟨⟨rfl, rfl, rfl⟩, rfl⟩, fun _ => rfl⟩

/-- The acts that move no procedure, apart from one that is told to stop. -/
theorem passes (t : Timeline) (complete : t.Complete) (a : Act) (others : ∀ index, a ≠ .procedure index)
    (still : ∀ time, a ≠ .wait time) :
    ∃ m, Passes t (t.act a) m ∧
      ∀ index, m.any (System.Move.isBy index) = true → m = some (.procedureEnds index) := by
  cases a with
  | procedure index => exact absurd rfl (others index)
  | wait time => exact absurd rfl (still time)
  | launch => exact ⟨some .start, .of_waits complete ⟨rfl, rfl, rfl⟩ rfl rfl, fun _ own => absurd own Bool.false_ne_true⟩
  | stop =>
    refine ⟨some .stop, .of_waits complete ⟨rfl, rfl, rfl⟩ rfl ?_, fun _ own => absurd own Bool.false_ne_true⟩
    simp only [act, system_move, System.step]
    split <;> rfl
  | stopParent => exact ⟨some .stopParent, .of_waits complete ⟨rfl, rfl, rfl⟩ rfl rfl, fun _ own => absurd own Bool.false_ne_true⟩
  | gateway up => exact ⟨none, .of_waits complete ⟨rfl, rfl, rfl⟩ rfl rfl, fun _ own => absurd own Bool.false_ne_true⟩
  | loopEnds token =>
    simp only [act]
    split
    · rename_i stopped
      refine ⟨some (.loopEnds token), .of_waits complete ⟨rfl, rfl, rfl⟩ rfl ?_, fun _ own => absurd own Bool.false_ne_true⟩
      simp only [system_move, System.step, stopped, if_true]
    · exact ⟨none, .of_waits complete ⟨rfl, rfl, rfl⟩ rfl rfl, fun _ own => absurd own Bool.false_ne_true⟩
  | procedureEnds index =>
    refine ⟨some (.procedureEnds index), .of_waits complete ⟨rfl, rfl, rfl⟩ rfl ?_, fun i own => ?_⟩
    · exact System.length_procedures_of_isBy (beq_self_eq_true index)
    · obtain rfl : index = i := by simpa [System.Move.isBy] using own
      rfl
  | ticker index =>
    simp only [act]
    split
    · obtain ⟨m, passes, others⟩ := t.passes_stepTicker complete index
      exact ⟨m, passes, fun i own => by rw [others i] at own; cases own⟩
    · exact ⟨none, .of_waits complete ⟨rfl, rfl, rfl⟩ rfl rfl, fun _ own => absurd own Bool.false_ne_true⟩

/-! ## Itineraries -/

/-- The stage that a procedure comes to between two timelines, and when. -/
def arrival? (t t' : Timeline) (index : Nat) : Option (Nat × Stage) :=
  if t'.system.stage? index = t.system.stage? index then none
  else (t'.system.stage? index).map fun stage => (t.clock, stage)

/-- When a procedure comes to which stage in a run. -/
def itinerary (t : Timeline) (index : Nat) : List Act → List (Nat × Stage)
  | [] => []
  | a :: acts => (t.arrival? (t.act a) index).toList ++ (t.act a).itinerary index acts

theorem itinerary_concat (t : Timeline) (index : Nat) (acts : List Act) (a : Act) :
    t.itinerary index (acts ++ [a]) =
      t.itinerary index acts ++ ((t.run acts).arrival? ((t.run acts).act a) index).toList := by
  induction acts generalizing t with
  | nil => simp [itinerary, run]
  | cons b acts ih =>
    show (t.arrival? (t.act b) index).toList ++ (t.act b).itinerary index (acts ++ [a]) = _
    rw [ih, ← List.append_assoc]
    rfl

/-- A probe comes after a pause, which has been as long as it should be. -/
def Paused (before after : Nat × Stage) : Prop :=
  ∀ n, after.2 = .probing n → before.2 = .sleeping n ∧ after.1 = before.1 + min (n * n) 60 * 1000

/-- What has been noted of a procedure, and its timer while it is asleep: it is to be set at once, and it does not
run out unnoticed. -/
structure Punctual (t : Timeline) (index : Nat) (notes : List (Nat × Stage)) : Prop where
  chain : notes.IsChain Paused
  first : ∀ x, notes.head? = some x → ∀ n, x.2 ≠ .probing n
  last : notes.getLast?.map Prod.snd = t.system.stage? index
  asleep : ∀ since n, notes.getLast? = some (since, .sleeping n) →
    (t.waits[index]? = some none ∧ t.clock = since) ∨
      ∃ timer, t.waits[index]? = some (some timer) ∧ timer.time = since + backoffSecs n * 1000 ∧
        t.clock ≤ timer.time

theorem procedureDue_of_idle {t : Timeline} (idle : t.dueStep = none) {index : Nat}
    (inside : index < t.system.procedures.length) : t.procedureDue index = false := by
  unfold dueStep at idle
  split at idle
  · cases idle
  · split at idle
    · cases idle
    · rename_i nobody
      simpa using List.find?_eq_none.mp nobody index (List.mem_range.mpr inside)

/-- The timer of a procedure that has not finished is one of those that the clock stops at. -/
theorem mem_timers {t : Timeline} {index : Nat} {p : Procedure} {timer : Waiting}
    (here : t.system.procedures[index]? = some p) (set : t.waits[index]? = some (some timer))
    (goesOn : p.stage ≠ .finished) : timer.time ∈ t.timers := by
  refine List.mem_append_right _ (List.mem_filterMap.mpr ⟨(p, some timer), ?_, ?_⟩)
  · exact List.mem_of_getElem? (List.getElem?_zip_eq_some.mpr ⟨here, set⟩)
  · simp [goesOn]

namespace Punctual

variable {t t' : Timeline} {index : Nat} {notes : List (Nat × Stage)}

/-- Nothing has happened to the procedure. -/
theorem stay (h : Punctual t index notes) (stage : t'.system.stage? index = t.system.stage? index)
    (waits : t'.waits[index]? = t.waits[index]?) (clock : t'.clock = t.clock) :
    Punctual t' index (notes ++ (t.arrival? t' index).toList) := by
  rw [arrival?, if_pos stage, Option.toList_none, List.append_nil]
  exact
    { chain := h.chain
      first := h.first
      last := by rw [stage, h.last]
      asleep := fun since n last => by rw [waits, clock]; exact h.asleep since n last }

/-- The procedure has come to another stage, and if that is a pause its timer is not set yet. -/
theorem arrive (h : Punctual t index notes) (stage : Stage) (comes : t'.system.stage? index = some stage)
    (new : t.system.stage? index ≠ some stage) (clock : t'.clock = t.clock)
    (unset : ∀ n, stage = .sleeping n → t'.waits[index]? = some none)
    (paused : ∀ n, stage = .probing n →
      ∃ since, notes.getLast? = some (since, .sleeping n) ∧ t.clock = since + backoffSecs n * 1000) :
    Punctual t' index (notes ++ (t.arrival? t' index).toList) := by
  have arrival : t.arrival? t' index = some (t.clock, stage) := by
    rw [arrival?, comes, if_neg (Ne.symm new)]
    rfl
  rw [arrival, Option.toList_some]
  constructor
  · rw [List.isChain_append]
    refine ⟨h.chain, List.isChain_singleton _, ?_⟩
    rintro ⟨since, before⟩ last x hx n probing
    obtain rfl : (t.clock, stage) = x := by simpa using hx
    obtain ⟨since', last', time⟩ := paused n probing
    cases last.symm.trans last'
    exact ⟨rfl, time⟩
  · intro x head n probing
    cases notes with
    | nil =>
      obtain rfl : (t.clock, stage) = x := by simpa using head
      obtain ⟨since, last, -⟩ := paused n probing
      cases last
    | cons y ys => exact h.first x (by simpa using head) n probing
  · rw [List.getLast?_concat, comes]
    rfl
  · intro since n last
    rw [List.getLast?_concat] at last
    cases last
    exact Or.inl ⟨unset n rfl, clock⟩

/-- The acts of others, and the end of a procedure that is told to stop. -/
theorem pass (h : Punctual t index notes) (complete : t.Complete) {m : Option System.Move}
    (passes : Passes t t' m)
    (own : m.any (System.Move.isBy index) = true → m = some (.procedureEnds index)) :
    Punctual t' index (notes ++ (t.arrival? t' index).toList) := by
  have clock := passes.clock
  cases here : t.system.procedures[index]? with
  | some p =>
    have inside : index < t.waits.length := by
      rw [complete]
      exact (List.getElem?_eq_some_iff.mp here).1
    have waits : t'.waits[index]? = t.waits[index]? := by
      rw [passes.waits, List.getElem?_append_left inside]
    have stage : t.system.stage? index = some p.stage := by rw [System.stage?, here]; rfl
    cases ends : m.any (System.Move.isBy index) with
    | false =>
      refine h.stay ?_ waits clock
      rw [passes.system]
      cases m with
      | none => rfl
      | some m =>
        show (t.system.step t.settings m).stage? index = _
        rw [System.stage?, System.getElem?_step_of_not_isBy here ends, System.stage?, here]
    | true =>
      obtain rfl := own ends
      have system : t'.system = t.system.step t.settings (.procedureEnds index) := passes.system
      by_cases same : t'.system.stage? index = t.system.stage? index
      · exact h.stay same waits clock
      · have finished := (System.stage?_procedureEnds t.settings t.system index).resolve_left (system ▸ same)
        rw [← system, stage, Option.map_some] at finished
        exact h.arrive .finished finished (finished ▸ Ne.symm same) clock (fun n same => by cases same)
          (fun n same => by cases same)
  | none =>
    have outside : t.waits.length ≤ index := by
      rw [complete]
      exact List.getElem?_eq_none_iff.mp here
    have absent : t.system.stage? index = none := by rw [System.stage?, here]; rfl
    cases new : t'.system.procedures[index]? with
    | none =>
      refine h.stay (by rw [absent, System.stage?, new]; rfl) ?_ clock
      rw [List.getElem?_eq_none_iff.mpr outside, List.getElem?_eq_none_iff, passes.complete complete]
      exact List.getElem?_eq_none_iff.mp new
    | some q =>
      have first : q.stage = Stage.before t.settings 1 := by
        rw [passes.system] at new
        cases m with
        | none => cases here.symm.trans new
        | some m => exact System.stage_of_new here new
      refine h.arrive q.stage (by rw [System.stage?, new]; rfl) (by rw [absent]; exact (Option.some_ne_none _).symm) clock ?_ ?_
      · intro n _
        have room : index < t'.system.procedures.length := (List.getElem?_eq_some_iff.mp new).1
        rw [passes.waits, List.getElem?_append_right outside, List.getElem?_replicate, if_pos (by omega)]
      · intro n probing
        exact absurd (first.symm.trans probing) (Stage.before_ne_probing _ 1 n)

/-- The clock does not run past a timer, and not on while a timer is still to be set. -/
theorem wait (h : Punctual t index notes) {time : Nat} (may : t.mayWait time = true) :
    Punctual { t with clock := time } index notes where
  chain := h.chain
  first := h.first
  last := h.last
  asleep since n last := by
    have stage : t.system.stage? index = some (.sleeping n) := by rw [← h.last, last]; rfl
    obtain ⟨p, here, sleeping⟩ := Option.map_eq_some_iff.mp stage
    simp only [mayWait, Bool.and_eq_true, decide_eq_true_eq, Option.isNone_iff_eq_none, List.all_eq_true] at may
    obtain ⟨⟨idle, later⟩, timers⟩ := may
    rcases h.asleep since n last with ⟨unset, -⟩ | ⟨timer, set, runsOut, ahead⟩
    · have busy : t.procedureDue index = true := by
        simp only [procedureDue, here, unset, sleeping]
      rw [procedureDue_of_idle idle (List.getElem?_eq_some_iff.mp here).1] at busy
      cases busy
    · refine Or.inr ⟨timer, set, runsOut, timers _ (mem_timers here set ?_)⟩
      rw [sleeping]
      nofun

/-- The step of another procedure. -/
theorem beside (h : Punctual t index notes) {other : Nat} (ne : other ≠ index)
    (steps : ProcedureStep t other t') : Punctual t' index (notes ++ (t.arrival? t' index).toList) := by
  have apart {m : System.Move} (takes : Takes t t' (some m)) (own : m.isBy other = true) :
      t'.system.stage? index = t.system.stage? index := by
    rw [takes.system]
    exact System.stage?_of_isBy own ne
  have unset {next : Option Waiting} (waits : t'.waits = t.waits.set other next) :
      t'.waits[index]? = t.waits[index]? := by
    rw [waits, List.getElem?_set_ne ne]
  cases steps with
  | idle same => exact same ▸ h.stay rfl rfl rfl
  | sleeps attempt here unset sets =>
    rw [sets]
    exact h.stay rfl (List.getElem?_set_ne ne) rfl
  | wakes attempt timer next here set takes waits =>
    exact h.stay (apart takes (beq_self_eq_true other)) (unset waits) takes.clock
  | answers attempt result here takes waits =>
    exact h.stay (apart takes (beq_self_eq_true other)) (unset waits) takes.clock
  | concludes here takes waits =>
    exact h.stay (apart takes (beq_self_eq_true other)) (by rw [waits]) takes.clock

/-- The step of the procedure itself. -/
theorem proceed (h : Punctual t index notes) (complete : t.Complete) (due : t.procedureDue index = true)
    (steps : ProcedureStep t index t') : Punctual t' index (notes ++ (t.arrival? t' index).toList) := by
  have since {stage : Stage} (here : t.system.stage? index = some stage) :
      ∃ since, notes.getLast? = some (since, stage) := by
    rw [← h.last] at here
    obtain ⟨⟨since, _⟩, last, rfl⟩ := Option.map_eq_some_iff.mp here
    exact ⟨since, last⟩
  cases steps with
  | idle same => exact same ▸ h.stay rfl rfl rfl
  | sleeps attempt here unset sets =>
    obtain ⟨since, last⟩ := since here
    have now : t.clock = since := by
      rcases h.asleep since attempt last with ⟨-, now⟩ | ⟨timer, set, -⟩
      · exact now
      · rw [unset] at set
        cases set
    have stage : t'.system.stage? index = t.system.stage? index := by rw [sets]
    rw [arrival?, if_pos stage, Option.toList_none, List.append_nil]
    refine ⟨h.chain, h.first, by rw [stage, h.last], fun since' n last' => Or.inr ?_⟩
    cases last.symm.trans last'
    refine ⟨.until (t.clock + backoffSecs attempt * 1000), ?_, by rw [now]; rfl, ?_⟩
    · rw [sets]
      exact List.getElem?_set_self (List.getElem?_eq_some_iff.mp unset).1
    · rw [sets]
      exact Nat.le_add_right _ _
  | wakes attempt timer next here set takes waits =>
    obtain ⟨since, last⟩ := since here
    have ran : t.clock = since + backoffSecs attempt * 1000 := by
      obtain ⟨p, there, asleep⟩ := Option.map_eq_some_iff.mp here
      have past : timer.time ≤ t.clock := by
        simpa only [procedureDue, there, set, asleep, decide_eq_true_eq] using due
      rcases h.asleep since attempt last with ⟨unset, -⟩ | ⟨timer', set', runsOut, ahead⟩
      · rw [unset] at set
        cases set
      · cases set.symm.trans set'
        exact Nat.le_antisymm (runsOut ▸ ahead) (runsOut ▸ past)
    have system : t'.system = t.system.step t.settings (.wake index) := takes.system
    rcases System.stage?_wake (c := t.settings) here with probing | finished
    · refine h.arrive (.probing attempt) (system ▸ probing) (by rw [here]; nofun) takes.clock nofun fun n same => ?_
      cases same
      exact ⟨since, last, ran⟩
    · exact h.arrive .finished (system ▸ finished) (by rw [here]; nofun) takes.clock nofun nofun
  | answers attempt result here takes waits =>
    have system : t'.system = t.system.step t.settings (.answered index result t.clock) := takes.system
    rcases System.stage?_answered (c := t.settings) here result t.clock with finished | next
    · exact h.arrive .finished (system ▸ finished) (by rw [here]; nofun) takes.clock nofun nofun
    · refine h.arrive _ (system ▸ next) ?_ takes.clock (fun n _ => ?_) fun n probing => ?_
      · rw [here, Stage.before]
        split <;> nofun
      · have inside : index < t.waits.length := by
          rw [complete]
          obtain ⟨p, there, -⟩ := Option.map_eq_some_iff.mp here
          exact (List.getElem?_eq_some_iff.mp there).1
        rw [waits]
        exact List.getElem?_set_self inside
      · exact absurd probing (Stage.before_ne_probing _ _ n)
  | concludes here takes waits =>
    have system : t'.system = t.system.step t.settings (.conclude index) := takes.system
    exact h.arrive .finished (system ▸ System.stage?_conclude here) (by rw [here]; nofun) takes.clock nofun nofun

end Punctual

theorem ProcedureStep.complete {t t' : Timeline} {index : Nat} (steps : ProcedureStep t index t')
    (complete : t.Complete) : t'.Complete := by
  have moved {m : System.Move} (takes : Takes t t' (some m)) (own : m.isBy index = true) :
      t'.system.procedures.length = t.system.procedures.length := by
    rw [takes.system]
    exact System.length_procedures_of_isBy own
  unfold Complete at *
  cases steps with
  | idle same => rw [same, complete]
  | sleeps attempt here unset sets => rw [sets, List.length_set, complete]
  | wakes attempt timer next here set takes waits | answers attempt result here takes waits =>
    rw [waits, List.length_set, complete, moved takes (beq_self_eq_true index)]
  | concludes here takes waits => rw [waits, complete, moved takes (beq_self_eq_true index)]

/-! ## Runs -/

/-- One act keeps the notes about a procedure and its timer together. -/
theorem Punctual.act {t : Timeline} {index : Nat} {notes : List (Nat × Stage)} (h : Punctual t index notes)
    (complete : t.Complete) (a : Act) :
    (t.act a).Complete ∧ Punctual (t.act a) index (notes ++ (t.arrival? (t.act a) index).toList) := by
  have idle : Punctual t index (notes ++ (t.arrival? t index).toList) := h.stay rfl rfl rfl
  by_cases own : ∃ other, a = .procedure other
  · obtain ⟨other, rfl⟩ := own
    simp only [Timeline.act]
    split
    · rename_i due
      have steps := t.procedureStep other
      refine ⟨steps.complete complete, ?_⟩
      by_cases same : other = index
      · subst same
        exact h.proceed complete due steps
      · exact h.beside same steps
    · exact ⟨complete, idle⟩
  · by_cases waits : ∃ time, a = .wait time
    · obtain ⟨time, rfl⟩ := waits
      simp only [Timeline.act]
      split
      · rename_i may
        have stage : arrival? t { t with clock := time } index = none := if_pos rfl
        rw [stage, Option.toList_none, List.append_nil]
        exact ⟨complete, h.wait may⟩
      · exact ⟨complete, idle⟩
    · obtain ⟨m, passes, own⟩ := t.passes complete a (fun i same => own ⟨i, same⟩) fun x same => waits ⟨x, same⟩
      exact ⟨passes.complete complete, h.pass complete passes (own index)⟩

theorem punctual_run {c : Settings} {t : Timeline} (fresh : t.Fresh c) (index : Nat) (acts : List Act) :
    (t.run acts).Complete ∧ Punctual (t.run acts) index (t.itinerary index acts) := by
  induction acts using List.reverseRecOn with
  | nil =>
    show t.Complete ∧ Punctual t index []
    constructor
    · rw [Complete, fresh.waits, fresh.system]
      rfl
    · exact ⟨.nil, nofun, by rw [System.stage?, fresh.system]; rfl, nofun⟩
  | append_singleton acts a ih =>
    rw [run_concat, itinerary_concat]
    exact ih.2.act ih.1 a

/-- An act is at most one move of the system. -/
theorem exists_move (t : Timeline) (complete : t.Complete) (a : Act) :
    ∃ m : Option System.Move, (t.act a).settings = t.settings ∧
      (t.act a).system = t.system.run t.settings m.toList := by
  have taken {t' : Timeline} {m : Option System.Move} (takes : Takes t t' m) :
      ∃ m : Option System.Move, t'.settings = t.settings ∧ t'.system = t.system.run t.settings m.toList := by
    refine ⟨m, takes.settings, ?_⟩
    rw [takes.system]
    cases m <;> rfl
  by_cases own : ∃ other, a = .procedure other
  · obtain ⟨other, rfl⟩ := own
    simp only [Timeline.act]
    split
    · cases t.procedureStep other with
      | idle same =>
        rw [same]
        exact ⟨none, rfl, rfl⟩
      | sleeps attempt here unset sets =>
        rw [sets]
        exact ⟨none, rfl, rfl⟩
      | wakes attempt timer next here set takes | answers attempt result here takes | concludes here takes =>
        exact taken takes
    · exact ⟨none, rfl, rfl⟩
  · by_cases waits : ∃ time, a = .wait time
    · obtain ⟨time, rfl⟩ := waits
      refine ⟨none, ?_⟩
      simp only [Timeline.act]
      split <;> exact ⟨rfl, rfl⟩
    · obtain ⟨m, passes, -⟩ := t.passes complete a (fun i same => own ⟨i, same⟩) fun x same => waits ⟨x, same⟩
      exact taken passes.toTakes

/-- What happens on a timeline can happen without a clock. -/
theorem exists_moves {c : Settings} {t : Timeline} (fresh : t.Fresh c) (acts : List Act) :
    (t.run acts).settings = c ∧ ∃ ms, (t.run acts).system = ({} : System).run c ms := by
  induction acts using List.reverseRecOn with
  | nil => exact ⟨fresh.settings, [], fresh.system⟩
  | append_singleton acts a ih =>
    obtain ⟨settings, ms, system⟩ := ih
    obtain ⟨m, settings', system'⟩ := (t.run acts).exists_move (punctual_run fresh 0 acts).1 a
    rw [run_concat, settings', settings]
    refine ⟨rfl, ms ++ m.toList, ?_⟩
    rw [system', system, settings, System.run, System.run, System.run, List.foldl_append]

/-- Everything that is done when the timeline settles is an act. -/
theorem settle_eq_run (fuel : Nat) (t : Timeline) : ∃ acts, settle fuel t = t.run acts := by
  induction fuel generalizing t with
  | zero => exact ⟨[], rfl⟩
  | succ fuel ih =>
    unfold settle
    split
    · rename_i t' due
      obtain ⟨acts, rest⟩ := ih t'
      suffices first : ∃ a, t.act a = t' by
        obtain ⟨a, rfl⟩ := first
        exact ⟨a :: acts, rest⟩
      unfold dueStep at due
      split at due
      · rename_i index found
        obtain ⟨inside, isDue, -⟩ := List.findIdx?_eq_some_iff_getElem.mp found
        refine ⟨.ticker index, (if_pos ?_).trans (Option.some.inj due)⟩
        rw [tickerDue, List.getElem?_eq_getElem inside]
        exact isDue
      · split at due
        · rename_i index found
          have isDue : t.procedureDue index = true := List.find?_some found
          exact ⟨.procedure index, (if_pos isDue).trans (Option.some.inj due)⟩
        · cases due
    · exact ⟨[], rfl⟩

end Timeline

namespace System

/-- The reconnection procedures of a monitor, with any settings, in any run, and however often the monitor is
started. There is one procedure for each episode. It makes its attempts in order and at most as many as it may. Its
steps change the monitor only while the latest episode is its own and the link is being mended. Unless it is told to
stop, the step that gives the link up and reports this is its last look after all attempts, each of them made in
vain while the episode was open, with the episode still open. No episode is given up twice. And wherever there is a
clock, a procedure starts its `n`-th probe `min (n * n) 60` seconds after it has come to the pause before it. -/
theorem episodes_isolated_and_bounded (c : Settings) :
    (∀ ms : List Move,
      let s := ({} : System).run c ms
      s.procedures.map Procedure.episode = List.range' 1 s.monitor.episode ∧
        (∀ index p, s.procedures[index]? = some p →
          (∃ n ≤ c.maxRetries, ({} : System).probes c ms index = List.range' 1 n) ∧
            ∀ m, m.isBy index = true →
              ((s.step c m).monitor ≠ s.monitor →
                s.monitor.episode = p.episode ∧ s.monitor.link = .reconnecting) ∧
              (s.isStopped p.token = false →
                ((s.givesUp c p.episode m = true ∧
                    (s.step c m).monitor.signals = s.monitor.signals ++ [.reconnectFailed]) ↔
                  m = .conclude index ∧
                    ({} : System).answers c ms index = List.replicate c.maxRetries .inVain ∧
                    s.monitor.isOpen p.episode = true))) ∧
        ∀ episode, ({} : System).surrenders c ms episode ≤ 1) ∧
      ∀ (t : Timeline), t.Fresh c → ∀ acts : List Timeline.Act,
        (∃ ms, (t.run acts).system = ({} : System).run c ms) ∧
          ∀ index, (t.itinerary index acts).IsChain Timeline.Paused ∧
            ∀ x, (t.itinerary index acts).head? = some x → ∀ n, x.2 ≠ .probing n := by
  constructor
  · intro ms s
    refine ⟨staffed_run c ms, fun index p here => ⟨?_, fun m own => ⟨fun writes => ?_, ?_⟩⟩, fun episode => ?_⟩
    · exact ((standing_run c ms index).2 p here).bounded
    · exact Monitor.isOpen_iff.mp (isOpen_of_isBy here own writes)
    · exact givesUp_iff_of_isBy here own
    · rcases surrenders_run c ms episode with none | ⟨once, -⟩ <;> omega
  · intro t fresh acts
    refine ⟨(Timeline.exists_moves fresh acts).2, fun index => ?_⟩
    have punctual := (Timeline.punctual_run fresh index acts).2
    exact ⟨punctual.chain, punctual.first⟩

/-- Two attempts are made in vain and the link is given up: the first one a second after the loss, the second one
four seconds after the first. -/
theorem episodes_isolated_and_bounded_given_up :
    let c : Settings := { maxRetries := 2, failureThreshold := 1 }
    let t : Timeline := { settings := c, up := false }
    let acts : List Timeline.Act := [.launch, .wait 30000, .ticker 0, .ticker 0, .procedure 0, .wait 31000,
      .procedure 0, .procedure 0, .procedure 0, .wait 35000, .procedure 0, .procedure 0, .procedure 0]
    (t.itinerary 0 acts).IsChain Timeline.Paused ∧
      t.itinerary 0 acts = [(30000, .sleeping 1), (31000, .probing 1), (31000, .sleeping 2), (35000, .probing 2),
        (35000, .exhausted), (35000, .finished)] ∧
      (t.run acts).system.monitor.signals = [.disconnected, .reconnectFailed] := by
  intro c t acts
  have paused := ((episodes_isolated_and_bounded c).2 t ⟨rfl, rfl, rfl⟩ acts).2 0
  exact ⟨paused.1, by decide, by decide⟩

end System

end Courier.Health
