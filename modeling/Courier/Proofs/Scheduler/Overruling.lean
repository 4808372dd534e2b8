/-
# Courier.Proofs.Scheduler.Overruling -- an end against an accepted cancellation

A worker takes the stop signal into account when it judges the result of its attempt, and not any more
when it stores it. Between the two stand the writes of `completed` and `failed` with their pauses, and
before the fetcher has answered the signal competes with the answer. `Worker.overrules` is true of a
worker that has such a way ahead of it.

`Calm` says that nobody has. It is kept by everything but a new claim, and a worker of which it does not
hold can be led to its end; so `State.accepted_cancel_stands_iff` is exact.
-/
import Courier.Proofs.Scheduler.Cancellation

namespace Courier.Scheduler

variable {c : Setup} {l l' : Ledger} {id : String}

/-- Can the worker still store that its task has completed or failed, although it is told to stop? -/
def Worker.overrules (w : Worker) : Bool :=
  match w.phase with
  | .claimed | .opening _ | .fetching _ => true
  | .ended (.error failure) =>
    !failure.isCancelled && Retry.decide failure w.task.remaining = .fail
  | .writing (.completed ..) _ | .writing (.failed _) _ => true
  | .pausing (.completed ..) _ | .pausing (.failed _) _ => !w.aborted
  | _ => false

theorem Worker.holds_of_overrules {w : Worker} (h : w.overrules = true) : w.phase.holds = true := by
  unfold Worker.overrules at h
  split at h <;> first | exact absurd h Bool.false_ne_true | simp [*, Phase.holds]

/-- Is this the write of `completed` or `failed` for the task? -/
def Happening.overrules (id : String) : Happening → Bool
  | .wrote x status _ => x = id && (status = .completed || status = .failed)
  | _ => false

namespace Ledger

/-! ## Calm -/

/-- Nobody overrules a cancellation of the task, and whoever still holds the task is told to stop. -/
def Calm (l : Ledger) (id : String) : Prop :=
  ∀ w ∈ l.workers, w.task.id = id →
    w.overrules = false ∧ (w.phase.holds = true → w.told = true)

/-- A worker that is told to stop and overrules nothing does not come to overrule anything. -/
theorem overrules_next {w v : Worker} {hs : List Happening} (next : Next c l w v.phase hs)
    (calm : w.overrules = false) (told : w.phase.holds = true → w.told = true) :
    v.overrules = false := by
  have from_phase {p : Phase} (phase : w.phase = p)
      (h : ({ w with phase := p } : Worker).overrules = true) : v.overrules = false := by
    have : w = { w with phase := p } := by rw [← phase]
    rw [← this, calm] at h
    cases h
  -- The phases in which the signal would still lose are ruled out by `calm`; where the result is
  -- judged, the signal wins.
  generalize hp : v.phase = p at next
  cases next with
  | fetch t phase => exact from_phase phase rfl
  | stop t phase told => rcases phase with phase | phase <;> exact from_phase phase rfl
  | fetched t phase => exact from_phase phase rfl
  | unfetched t failure phase => exact from_phase phase rfl
  | stored t result phase => simp [Worker.overrules, hp]
  | judge t result phase =>
    have wtold : w.told = true := told (by rw [phase]; rfl)
    rcases storedPhase_cases (c.kinds.get? w.task.kind) w.told t result with h | h | ⟨no, -⟩
    · simp [Worker.overrules, hp, h]
    · simp [Worker.overrules, hp, h, Failure.isCancelled, Failure.cancelled]
    · rw [wtold] at no
      cases no
  | rolledBack t phase => simp [Worker.overrules, hp, Failure.isCancelled, Failure.cancelled]
  | settle result millis phase =>
    have wtold : w.told = true := told (by rw [phase]; rfl)
    rcases endedPhase_cases w.told w.task.remaining millis result with
      h | ⟨bytes, no, -⟩ | ⟨failure, hresult, hcancelled, ⟨left, -, h⟩ | ⟨hfail, -⟩⟩
    · simp [Worker.overrules, hp, h]
    · rw [wtold] at no
      cases no
    · simp [Worker.overrules, hp, h]
    · refine from_phase phase ?_
      simp [Worker.overrules, hresult, hcancelled, hfail]
  | interrupted phase => simp [Worker.overrules, hp]
  | cancelled phase => simp [Worker.overrules, hp]
  | refused e attempt phase =>
    cases e <;> first
      | exact from_phase phase rfl
      | simp [Worker.overrules, hp]
  | givenUp e attempt phase => cases e <;> simp [Worker.overrules, hp, givenUpPhase]
  | again e attempt phase aborted =>
    cases e <;> first
      | simp [Worker.overrules, hp]; done
      | exact from_phase phase (by simp [Worker.overrules, aborted])

theorem overrules_same {w v : Worker} (heir : Heir l w v) (phase : w.phase = v.phase)
    (calm : w.overrules = false) : v.overrules = false := by
  unfold Worker.overrules at calm ⊢
  rw [← phase, ← heir.task]
  split at calm <;> first
    | exact calm
    | rw [Bool.not_eq_false'] at calm ⊢
      exact heir.aborted calm

/-- Calm ends with a new claim of the task, and with nothing else. -/
theorem Calm.step (calm : l.Calm id) (h : l.Agrees) (act : Act c .additions l l') :
    l'.Calm id ∨ ∃ n hs, l'.history = hs ++ l.history ∧ .claimed id n ∈ hs := by
  by_cases claimed : ∃ n hs, l'.history = hs ++ l.history ∧ .claimed id n ∈ hs
  · exact Or.inr claimed
  · left
    intro v hv hid
    have before {w : Worker} (heir : Heir l w v) :
        w.overrules = false ∧ (w.phase.holds = true → w.told = true) :=
      calm w heir.here (heir.task ▸ hid)
    cases h.origin act hv with
    | claimed seq phase queued noted => exact absurd (hid ▸ noted) claimed
    | same w heir phase =>
      obtain ⟨quiet, told⟩ := before heir
      exact ⟨overrules_same heir phase quiet, fun holds => heir.told (told (phase ▸ holds))⟩
    | started w heir was phase =>
      -- A claimed worker was not calm.
      have no := (before heir).1
      simp [Worker.overrules, was] at no
    | moved w heir hs next =>
      obtain ⟨quiet, told⟩ := before heir
      exact ⟨overrules_next next quiet told, fun holds => heir.told (told (next.holds ▸ holds))⟩
    | handedBack w heir failure remaining attempt was phase =>
      obtain ⟨-, told⟩ := before heir
      exact ⟨by simp [Worker.overrules, phase], fun _ => heir.told (told (by rw [was]; rfl))⟩
    | heldBack w heir was phase =>
      exact ⟨by simp [Worker.overrules, phase], fun holds => by rw [phase] at holds; cases holds⟩
    | lateStored w heir was phase =>
      exact ⟨by simp [Worker.overrules, phase], fun holds => by rw [phase] at holds; cases holds⟩
    | ended w heir es phase =>
      exact ⟨by simp [Worker.overrules, phase], fun holds => by rw [phase] at holds; cases holds⟩

/-- In a calm nobody stores that the task has completed or failed. -/
theorem Calm.notOverruled (calm : l.Calm id) {x : Happening} (noted : Noted l l' x) :
    x.overrules id = false := by
  cases noted with
  | outward x h => cases x <;> first | rfl | cases h
  | ended w e attempt here phase =>
    by_contra overruled
    simp only [Happening.overrules, Bool.not_eq_false, Bool.and_eq_true, decide_eq_true_eq] at overruled
    have quiet := (calm w here overruled.1).1
    cases e <;> simp_all [Worker.overrules, Ending.status]
  | stored x status open' =>
    rcases open' with rfl | rfl | rfl <;> simp [Happening.overrules]
  | enqueued | claimed | withdrawn | accepted | released | letGo => rfl

end Ledger

namespace State

theorem calm_run {s : State} (h : s.ledger.Agrees) (calm : s.ledger.Calm id)
    {ys : List Move} (run : s.Follows c Move.Orderly ys) :
    ∃ hs, (s.run c ys).history = hs ++ s.history ∧
      ((∃ n, .claimed id n ∈ hs) ∨ ∀ x ∈ hs, x.overrules id = false) := by
  have course : (s.run c ys).ledger.Agrees ∧ ∃ hs, (s.run c ys).ledger.history = hs ++ s.history ∧
      ((∃ n, .claimed id n ∈ hs) ∨
        (s.run c ys).ledger.Calm id ∧ ∀ x ∈ hs, x.overrules id = false) := by
    refine (run_acts_of_orderly run).preserves
      (P := fun l => l.Agrees ∧ ∃ hs, l.history = hs ++ s.history ∧
        ((∃ n, .claimed id n ∈ hs) ∨ l.Calm id ∧ ∀ x ∈ hs, x.overrules id = false)) ?_ ?_
    · rintro l l' ⟨agrees, hs, history, course⟩ act
      obtain ⟨new, grown, noted⟩ := act.noted
      refine ⟨agrees.step act, new ++ hs, by rw [grown, history, List.append_assoc], ?_⟩
      rcases course with ⟨n, claimed⟩ | ⟨calm, quiet⟩
      · exact Or.inl ⟨n, List.mem_append_right new claimed⟩
      · rcases calm.step agrees act with calm' | ⟨n, new', grown', claimed⟩
        · refine Or.inr ⟨calm', fun x hx => ?_⟩
          rcases List.mem_append.mp hx with hx | hx
          · exact calm.notOverruled (noted x hx)
          · exact quiet x hx
        · rw [List.append_cancel_right (grown'.symm.trans grown)] at claimed
          exact Or.inl ⟨n, List.mem_append_left hs claimed⟩
    · exact ⟨h, [], rfl, Or.inr ⟨calm, by simp⟩⟩
  obtain ⟨-, hs, history, course⟩ := course
  exact ⟨hs, history, course.imp_right And.right⟩

/-! ## A way to an end -/

/-- From here `completed` or `failed` can be stored for the task without a new claim of it. -/
def Overrulable (c : Setup) (s : State) (id : String) : Prop :=
  ∃ ys, s.Follows c Move.Orderly ys ∧ (∀ n, .claimed id n ∉ s.since (s.run c ys)) ∧
    ∃ x ∈ s.since (s.run c ys), x.overrules id = true

/-- One more move before. -/
theorem overrulable_of_step {s : State} (m : Move) (ok : m.Orderly s) {new : List Happening}
    (grown : (s.step c m).history = new ++ s.history) (quiet : ∀ n, .claimed id n ∉ new)
    (h : (s.step c m).Overrulable c id) : s.Overrulable c id := by
  obtain ⟨ys, run, unclaimed, x, hx, overruled⟩ := h
  obtain ⟨hs, history⟩ := run_history run
  have sinceStep : (s.step c m).since ((s.step c m).run c ys) = hs := since_eq history
  have sinceAll : s.since ((s.step c m).run c ys) = hs ++ new :=
    since_eq (by rw [history, grown, List.append_assoc])
  rw [sinceStep] at unclaimed hx
  refine ⟨m :: ys, ⟨ok, run⟩, ?_, x, ?_, overruled⟩
  · intro n
    show .claimed id n ∉ s.since ((s.step c m).run c ys)
    rw [sinceAll, List.mem_append, not_or]
    exact ⟨unclaimed n, quiet n⟩
  · show x ∈ s.since ((s.step c m).run c ys)
    rw [sinceAll]
    exact List.mem_append_left new hx

/-- The worker is there, and nothing is in its way. -/
structure Ready (s : State) (w : Worker) : Prop where
  found : (s.workers.find? fun x => x.seq = w.seq) = some w
  healthy : s.disk.outages = []
  known : w.task.id ∈ s.disk.store.ids

theorem Ready.setWorker {s t : State} {w : Worker} (ready : s.Ready w) {f : Worker → Worker}
    (seq : ∀ x, (f x).seq = x.seq) (task : (f w).task = w.task) (disk : t.disk = s.disk)
    (workers : t.workers = (s.setWorker w.seq f).workers) : t.Ready (f w) where
  found := by
    have same : ((fun x : Worker => decide (x.seq = w.seq)) ∘ fun x => if x.seq = w.seq then f x else x) =
        fun x => decide (x.seq = w.seq) := by
      funext x
      simp only [Function.comp]
      split <;> simp [*]
    rw [workers, seq w]
    show ((s.workers.map fun x => if x.seq = w.seq then f x else x).find? fun x => x.seq = w.seq) = _
    rw [List.find?_map, same, ready.found]
    simp
  healthy := disk ▸ ready.healthy
  known := by
    rw [disk, task]
    exact ready.known

theorem overrulable_of_writing {s : State} {w : Worker} (ready : s.Ready w) {e : Ending} {attempt : Nat}
    (phase : w.phase = .writing e attempt) (ended : e.status = .completed ∨ e.status = .failed) :
    s.Overrulable c w.task.id := by
  obtain ⟨store, -, hw⟩ := writeStatus_of_healthy ready.healthy ready.known e.status e.error
  have releases : e.releases = true := by
    cases e <;> first | rfl | (rcases ended with ended | ended <;> cases ended)
  have hstep : s.stepWorker c w.seq .go = s.tryWrite w e attempt := by
    simp [stepWorker, ready.found, phase]
  have history : (s.run c [.worker w.seq .go]).history =
      [.released w.task.id, .wrote w.task.id e.status e.error] ++ s.history := by
    show (s.stepWorker c w.seq .go).history = _
    rw [hstep, tryWrite, hw]
    simp [releases, release, setPhase, setWorker]
  refine ⟨[.worker w.seq .go], ⟨trivial, trivial⟩, ?_, .wrote w.task.id e.status e.error, ?_, ?_⟩
  · rw [since_eq history]
    simp
  · rw [since_eq history]
    simp
  · simpa [Happening.overrules] using ended

/-- A step that only leads the worker to its next phase. -/
theorem overrulable_of_phase {s : State} {w : Worker} (ready : s.Ready w) (answer : Answer)
    (new : List Happening) (f : Worker → Worker) (seq : ∀ x, (f x).seq = x.seq)
    (task : (f w).task = w.task) (quiet : ∀ n, .claimed w.task.id n ∉ new)
    (step : s.stepWorker c w.seq answer =
      ({ s with history := new ++ s.history } : State).setWorker w.seq f)
    (h : ∀ t : State, t.Ready (f w) → t.Overrulable c w.task.id) : s.Overrulable c w.task.id := by
  refine overrulable_of_step (.worker w.seq answer) trivial ?_ quiet ?_
  · show (s.stepWorker c w.seq answer).history = _
    rw [step]
    rfl
  · show (s.stepWorker c w.seq answer).Overrulable c w.task.id
    rw [step]
    exact h _ (ready.setWorker seq task rfl rfl)

theorem overrulable_of_pausing {s : State} {w : Worker} (ready : s.Ready w) {e : Ending}
    {attempt : Nat} (phase : w.phase = .pausing e attempt) (aborted : w.aborted = false)
    (ended : e.status = .completed ∨ e.status = .failed) : s.Overrulable c w.task.id := by
  refine overrulable_of_phase ready .go [] (fun x => { x with phase := .writing e (attempt + 1) })
    (fun _ => rfl) rfl (by simp) ?_ ?_
  · simp [stepWorker, ready.found, phase, aborted, setPhase]
  · intro t ready'
    exact overrulable_of_writing (w := { w with phase := .writing e (attempt + 1) }) ready' rfl ended

theorem overrulable_of_ended {s : State} {w : Worker} (ready : s.Ready w) {failure : Failure}
    (phase : w.phase = .ended (.error failure)) (notCancelled : failure.isCancelled = false)
    (final : Retry.decide failure w.task.remaining = .fail) : s.Overrulable c w.task.id := by
  refine overrulable_of_phase ready .go [] (fun x => { x with phase := .writing (.failed failure) 1 })
    (fun _ => rfl) rfl (by simp) ?_ ?_
  · simp [stepWorker, ready.found, phase, endedPhase, notCancelled, final, setPhase]
  · intro t ready'
    exact overrulable_of_writing (w := { w with phase := .writing (.failed failure) 1 }) ready' rfl
      (Or.inr rfl)

/-- The fetcher's answer wins against the stop signal, and it is a final failure. -/
theorem overrulable_of_fetching {s : State} {w : Worker} (ready : s.Ready w) {t : Transfer}
    (phase : w.phase = .fetching t) : s.Overrulable c w.task.id := by
  refine overrulable_of_phase ready (.fetched (.error ⟨.permission, ""⟩)) []
    (fun x => { x with phase := .ended (.error ⟨.permission, ""⟩) }) (fun _ => rfl) rfl (by simp) ?_ ?_
  · simp [stepWorker, ready.found, phase, setPhase]
  · intro t ready'
    exact overrulable_of_ended (w := { w with phase := .ended (.error ⟨.permission, ""⟩) }) ready' rfl
      rfl (by simp [Retry.decide, Failure.isRetryable, FailureKind.isRetryable])

theorem overrulable_of_opening {s : State} {w : Worker} (ready : s.Ready w) {t : Transfer}
    (phase : w.phase = .opening t) : s.Overrulable c w.task.id := by
  refine overrulable_of_phase ready .go [.fetched w.seq t.source]
    (fun x => { x with phase := .fetching t }) (fun _ => rfl) rfl (by simp) ?_ ?_
  · simp [stepWorker, ready.found, phase, setPhase, note]
  · intro u ready'
    exact overrulable_of_fetching (w := { w with phase := .fetching t }) ready' rfl

theorem overrulable_of_claimed {s : State} {w : Worker} (ready : s.Ready w)
    (phase : w.phase = .claimed) : s.Overrulable c w.task.id := by
  refine overrulable_of_phase ready .go [.reported (.started w.task.id w.task.attempts)]
    (fun x => { x with phase := openingPhase c x.task, started := s.now }) (fun _ => rfl) rfl
    (by simp) ?_ ?_
  · simp [stepWorker, ready.found, phase, note]
  · intro t ready'
    rcases openingPhase_cases c w.task with ⟨failure, kind, hp⟩ | ⟨u, hp⟩
    · exact overrulable_of_ended (w := { w with phase := openingPhase c w.task, started := s.now })
        ready' hp (by simp [Failure.isCancelled, kind])
        (by simp [Retry.decide, Failure.isRetryable, FailureKind.isRetryable, kind])
    · exact overrulable_of_opening (w := { w with phase := openingPhase c w.task, started := s.now })
        ready' hp

/-- A worker that overrules has a way to an end. -/
theorem overrulable_of_ready {s : State} {w : Worker} (ready : s.Ready w)
    (overrules : w.overrules = true) : s.Overrulable c w.task.id := by
  unfold Worker.overrules at overrules
  split at overrules
  · exact overrulable_of_claimed ready ‹_›
  · exact overrulable_of_opening ready ‹_›
  · exact overrulable_of_fetching ready ‹_›
  · rename_i failure phase
    simp only [Bool.and_eq_true, Bool.not_eq_true', decide_eq_true_eq] at overrules
    exact overrulable_of_ended ready phase overrules.1 overrules.2
  · exact overrulable_of_writing ready ‹_› (Or.inl rfl)
  · exact overrulable_of_writing ready ‹_› (Or.inr rfl)
  · exact overrulable_of_pausing ready ‹_› (by simpa using overrules) (Or.inl rfl)
  · exact overrulable_of_pausing ready ‹_› (by simpa using overrules) (Or.inr rfl)
  · cases overrules

/-- The disk may be healed first. -/
theorem overrulable_of_mem {s : State} (h : s.ledger.Agrees) {w : Worker} (here : w ∈ s.workers)
    (overrules : w.overrules = true) : s.Overrulable c w.task.id := by
  have running : w.task.id ∈ s.ledger.tracked :=
    Ledger.mem_tracked.mpr (Or.inr (Or.inl (h.mem_runningIds here (Worker.holds_of_overrules overrules))))
  obtain ⟨status, stored⟩ := h.stored w.task.id (h.tracked_enqueued w.task.id running)
  have ready : ({ s with disk := s.disk.heal } : State).Ready w :=
    ⟨h.numbered.found here, rfl, Store.mem_ids_of_status? stored⟩
  exact overrulable_of_step .heal trivial (List.nil_append _).symm (by simp)
    (overrulable_of_ready ready overrules)

/-! ## When a cancellation stands -/

/-- An accepted cancellation of a task stands against the end of the attempt, in every run without
edits of records in which the task is not claimed again, if and only if no worker overrules it when it
is accepted. -/
theorem accepted_cancel_stands_iff (c : Setup) (disk : Disk) (keyed : disk.store.Keyed)
    (xs : List Move) (id : String) (before : (State.init c disk).Follows c Move.Orderly xs)
    (accepted : (((State.init c disk).run c xs).cancel id).1 = .ok ()) :
    let s := (State.init c disk).run c (xs ++ [.cancel id])
    (∀ ys, s.Follows c Move.Orderly ys → (∀ n, .claimed id n ∉ s.since (s.run c ys)) →
      ∀ error, .wrote id .completed error ∉ s.since (s.run c ys) ∧
        .wrote id .failed error ∉ s.since (s.run c ys)) ↔
      ∀ w ∈ s.workers, w.task.id = id → w.overrules = false := by
  intro s
  have run : (State.init c disk).Follows c Move.Orderly (xs ++ [.cancel id]) :=
    Follows.append.mpr ⟨before, trivial, trivial⟩
  have agrees : s.ledger.Agrees := agrees_of_orderly keyed run
  have told : s.ledger.Told := told_of_orderly keyed run
  have remembers : s.ledger.Remembers id := by
    have hs : s = ((State.init c disk).run c xs).step c (.cancel id) := run_append c _ xs [.cancel id]
    rw [hs]
    exact remembers_of_accepted accepted
  constructor
  · intro stands w here task
    by_contra overrules
    obtain ⟨ys, after, unclaimed, x, hx, overruled⟩ :=
      overrulable_of_mem (c := c) agrees here (by simpa using overrules)
    rw [task] at unclaimed overruled
    have no := stands ys after unclaimed
    -- The continuation that leads the worker to its end contradicts what every continuation does.
    cases x with
    | wrote y status error =>
      simp only [Happening.overrules, Bool.and_eq_true, Bool.or_eq_true, decide_eq_true_eq] at overruled
      obtain ⟨rfl, rfl | rfl⟩ := overruled
      · exact (no error).1 hx
      · exact (no error).2 hx
    | _ => cases overruled
  · intro quiet ys after unclaimed error
    have calm : s.ledger.Calm id := fun w here task =>
      ⟨quiet w here task, remembers.told agrees told here task⟩
    obtain ⟨hs, history, course⟩ := calm_run agrees calm after
    rw [since_eq history] at unclaimed ⊢
    have silent := course.resolve_left fun ⟨n, claimed⟩ => unclaimed n claimed
    exact ⟨fun written => by simpa [Happening.overrules] using silent _ written,
      fun written => by simpa [Happening.overrules] using silent _ written⟩

/-- While the storage works, a cancellation comes in time. -/
theorem accepted_cancel_stands_while_storing :
    let c := Setup.small 0
    let s := (State.init c {}).run c (storingRun ++ [.cancel "a"])
    ∀ ys, s.Follows c Move.Orderly ys → (∀ n, .claimed "a" n ∉ s.since (s.run c ys)) →
      ∀ error, .wrote "a" .completed error ∉ s.since (s.run c ys) ∧
        .wrote "a" .failed error ∉ s.since (s.run c ys) :=
  (accepted_cancel_stands_iff (Setup.small 0) {} List.nodup_nil storingRun "a" (by decide +kernel)
    (by decide +kernel)).mpr (by decide +kernel)

/-- A task has been transferred, the first write of `completed` is refused, and its worker waits before
the second. -/
def pausingRun : List Move :=
  [.outage (.update .completed) (.times 1), .submit "a" "mem" (Transfer.encode ⟨"a", "out/a"⟩) "film",
    .start, .loop .go, .loop .permit, .loop .go, .loop .go, .worker 0 .go, .worker 0 .go,
    .worker 0 (.fetched (.ok ())), .worker 0 (.stored (.ok 1)), .worker 0 .go, .worker 0 .go,
    .worker 0 .go]

/-- A cancellation that is accepted in that pause is overruled by the second write. -/
theorem accepted_cancel_overruled :
    let c := Setup.small 0
    let s := (State.init c {}).run c (pausingRun ++ [.cancel "a"])
    let ys : List Move := [.worker 0 .go, .worker 0 .go]
    ((State.init c {}).Follows c Move.Orderly (pausingRun ++ .cancel "a" :: ys) ∧
      (((State.init c {}).run c pausingRun).cancel "a").1 = .ok ()) ∧
      .wrote "a" .completed "" ∈ s.since (s.run c ys) ∧
      (s.run c ys).disk.store.status? "a" = some .completed := by
  refine ⟨⟨by decide +kernel, by decide +kernel⟩, by decide +kernel, by decide +kernel⟩

end State

end Courier.Scheduler
