/-
# Courier.Proofs.Scheduler.Interruption -- who interrupts an attempt

A worker takes a failure of the kind `cancelled` for its own stop signal, wherever the failure comes from.
Unless the cancellation of the task was asked for, it then leaves the running set as if by a shutdown: it
stores nothing, and the record goes on saying `running`. A fetcher and a storage may fail in any way, so in
this one as well.

Here a run leaves one task alone: no shutdown, and no call of `cancel` for it. `Trail` says for every
phase what a worker of the task has been through: the status writes it has tried, and whether a fetcher or a
storage has called its own failure a cancellation. From it `State.only_shutdown_interrupts_iff` has how
every attempt ends that ends. The moves of everybody else are free, and so are the ids of submissions.
-/
import Courier.Proofs.Scheduler.Deletions
import Courier.Proofs.Scheduler.Outcomes
import Courier.Proofs.Scheduler.Requested
import Courier.Proofs.Scheduler.Recovery

namespace Courier.Scheduler

variable {c : Setup} {E : Edits} {l l' : Ledger} {s : State} {id : String}

/-! ## Stopping -/

/-- Does the result of an attempt say that it was stopped? -/
def saysStopped : Except Failure Nat → Bool
  | .error failure => failure.isCancelled
  | .ok _ => false

namespace Phase

/-- Is the worker at work on its attempt, and nothing has stopped it? -/
def proceeds : Phase → Bool
  | .claimed | .opening _ | .fetching _ | .storing _ => true
  | .stored _ result | .ended result => !saysStopped result
  | _ => false

/-- Does the worker take its attempt for stopped? -/
def stops : Phase → Bool
  | .stored _ result | .ended result => saysStopped result
  | .rollingBack _ | .stopped | .leaving => true
  | _ => false

theorem proceeds_of_stops {p : Phase} (h : p.stops = true) : p.proceeds = false := by
  cases p with
  | stored t result => exact congrArg not h
  | ended result => exact congrArg not h
  | rollingBack | stopped | leaving => rfl
  | _ => cases h

theorem holds_of_proceeds {p : Phase} (h : p.proceeds = true) : p.holds = true := by
  cases p <;> first | rfl | cases h

end Phase

/-- Does a fetcher or a storage call its own failure a cancellation? -/
def Answer.feigns (w : Worker) (answer : Answer) : Bool :=
  match w.phase, answer with
  | .fetching _, .fetched (.error failure) => failure.isCancelled
  | .storing _, .stored (.error failure) => failure.isCancelled
  | _, _ => false

/-- Only a stopped result stops a worker that nobody has told to stop. -/
theorem storedPhase_untold (handler : Option Handler) (t : Transfer) (result : Except Failure Nat) :
    (storedPhase handler false t result).stops = saysStopped result ∧
      (storedPhase handler false t result).proceeds = !saysStopped result := by
  cases result with
  | ok bytes => exact ⟨rfl, rfl⟩
  | error failure =>
    unfold storedPhase
    cases hstop : failure.isCancelled with
    | false => simp [hstop, Phase.stops, Phase.proceeds, saysStopped]
    | true =>
      simp only [hstop, Bool.false_or, if_true, saysStopped]
      split <;> exact ⟨rfl, rfl⟩

theorem endedPhase_untold (remaining millis : Nat) (result : Except Failure Nat) :
    saysStopped result = true ∧ endedPhase false remaining millis result = .stopped ∨
      saysStopped result = false ∧ ∃ e, endedPhase false remaining millis result = .writing e 1 := by
  cases result with
  | ok bytes => exact Or.inr ⟨rfl, _, rfl⟩
  | error failure =>
    simp only [endedPhase, saysStopped]
    by_cases hstop : failure.isCancelled = true
    · exact Or.inl ⟨hstop, if_pos hstop⟩
    · refine Or.inr ⟨by simpa using hstop, ?_⟩
      rw [if_neg hstop]
      split <;> exact ⟨_, rfl⟩

theorem openingPhase_proceeds (c : Setup) (task : Queued) : (openingPhase c task).proceeds = true := by
  rcases openingPhase_cases c task with ⟨⟨kind, message⟩, invalid, hp⟩ | ⟨t, hp⟩ <;> rw [hp]
  · cases invalid
    rfl
  · rfl

/-! ## What an attempt goes through -/

/-- A status that a worker has tried to store, and what the store has said to it. -/
abbrev Try := Ending × Except Store.Error Unit

def refusal (e : Ending) (err : Store.Error) : Try := (e, .error err)

/-- Has a status been refused so often, or for such a reason, that it is not tried again? -/
def GivenUp (errs : List Store.Error) : Prop :=
  errs.length = writeAttempts ∨ ∃ x, errs.getLast? = some (.notFound x)

theorem GivenUp.ne_nil {errs : List Store.Error} (out : GivenUp errs) : errs ≠ [] := by
  rintro rfl
  rcases out with out | ⟨x, out⟩
  · exact absurd out (by decide)
  · cases out

/-- What a worker in a phase has been through, if nobody has told it to stop: whether its fetcher or its
storage has feigned a cancellation, and the status writes it has tried. -/
inductive Trail (feigned : Bool) (tries : List Try) : Phase → Prop
  | working {p : Phase} (proceeds : p.proceeds = true) (genuine : feigned = false) (untried : tries = []) :
      Trail feigned tries p
  | stopping {p : Phase} (stops : p.stops = true) (feint : feigned = true) (untried : tries = []) :
      Trail feigned tries p
  | writing (e : Ending) (errs : List Store.Error) (genuine : feigned = false)
      (refused : tries = errs.map (refusal e)) (more : errs.length < writeAttempts) :
      Trail feigned tries (.writing e (errs.length + 1))
  | pausing (e : Ending) (errs : List Store.Error) (genuine : feigned = false)
      (refused : tries = errs.map (refusal e)) (more : errs.length < writeAttempts) :
      Trail feigned tries (.pausing e errs.length)
  | abandoning (e : Ending) (errs : List Store.Error) (genuine : feigned = false)
      (refused : tries = errs.map (refusal e)) (out : GivenUp errs) : Trail feigned tries .abandoning
  | requeueing (failure : Failure) (left : Nat) (errs : List Store.Error) (genuine : feigned = false)
      (stored : tries = errs.map (refusal (.retry failure left)) ++ [(.retry failure left, .ok ())]) :
      Trail feigned tries (.requeueing failure left)
  /-- It has let go of its task. -/
  | gone (es : List Effect) : Trail feigned tries (.effects es)

namespace Trail

variable {feigned : Bool} {tries : List Try} {p : Phase}

theorem of_proceeds (trail : Trail feigned tries p) (proceeds : p.proceeds = true) :
    feigned = false ∧ tries = [] := by
  cases trail with
  | working _ genuine untried => exact ⟨genuine, untried⟩
  | stopping stops =>
    rw [Phase.proceeds_of_stops stops] at proceeds
    cases proceeds
  | _ => cases proceeds

theorem of_stops (trail : Trail feigned tries p) (stops : p.stops = true) :
    feigned = true ∧ tries = [] := by
  cases trail with
  | working proceeds =>
    rw [Phase.proceeds_of_stops stops] at proceeds
    cases proceeds
  | stopping _ feint untried => exact ⟨feint, untried⟩
  | _ => cases stops

/-- A worker that is about to write has been refused as often as it has tried before. -/
theorem of_writing {e : Ending} {attempt : Nat} (trail : Trail feigned tries (.writing e attempt)) :
    feigned = false ∧ ∃ errs : List Store.Error,
      tries = errs.map (refusal e) ∧ errs.length < writeAttempts ∧ attempt = errs.length + 1 := by
  cases trail with
  | working proceeds => cases proceeds
  | stopping stops => cases stops
  | writing _ errs genuine refused more => exact ⟨genuine, errs, refused, more, rfl⟩

theorem of_abandoning (trail : Trail feigned tries .abandoning) :
    feigned = false ∧ ∃ e errs, tries = List.map (refusal e) errs ∧ GivenUp errs := by
  cases trail with
  | working proceeds => cases proceeds
  | stopping stops => cases stops
  | abandoning e errs genuine refused out => exact ⟨genuine, e, errs, refused, out⟩

theorem of_requeueing {failure : Failure} {left : Nat} (trail : Trail feigned tries (.requeueing failure left)) :
    feigned = false ∧ ∃ errs : List Store.Error,
      tries = errs.map (refusal (.retry failure left)) ++ [(.retry failure left, .ok ())] := by
  cases trail with
  | working proceeds => cases proceeds
  | stopping stops => cases stops
  | requeueing _ _ errs genuine stored => exact ⟨genuine, errs, stored⟩

end Trail

namespace State

/-- The status write of a worker that takes its next step. -/
def tried (s : State) (w : Worker) (answer : Answer) : List Try :=
  match w.phase, answer with
  | .writing e _, .go => [(e, (s.writeStatus w.task.id e.status e.error).1)]
  | _, _ => []

/-- The worker of this number, if it is the one that moves, and what it is told. -/
def turn? (s : State) (seq : Nat) : Move → Option (Worker × Answer)
  | .worker n answer => if n = seq then (s.workers.find? fun w => w.seq = n).map (·, answer) else none
  | _ => none

/-- The status writes that the worker of this number has tried in a run. -/
def tries (c : Setup) (s : State) (seq : Nat) : List Move → List Try
  | [] => []
  | m :: ms => ((s.turn? seq m).elim [] fun x => s.tried x.1 x.2) ++ (s.step c m).tries c seq ms

/-- Has a fetcher or a storage feigned a cancellation to the worker of this number? -/
def feigned (c : Setup) (s : State) (seq : Nat) : List Move → Bool
  | [] => false
  | m :: ms => ((s.turn? seq m).any fun x => x.2.feigns x.1) || (s.step c m).feigned c seq ms

theorem tries_concat (s : State) (seq : Nat) (ms : List Move) (m : Move) :
    s.tries c seq (ms ++ [m]) =
      s.tries c seq ms ++ (((s.run c ms).turn? seq m).elim [] fun x => (s.run c ms).tried x.1 x.2) := by
  induction ms generalizing s with
  | nil => simp [tries, run]
  | cons n ms ih =>
    rw [List.cons_append, tries, ih, tries, List.append_assoc]
    rfl

theorem feigned_concat (s : State) (seq : Nat) (ms : List Move) (m : Move) :
    s.feigned c seq (ms ++ [m]) =
      (s.feigned c seq ms || ((s.run c ms).turn? seq m).any fun x => x.2.feigns x.1) := by
  induction ms generalizing s with
  | nil => simp [feigned, run]
  | cons n ms ih =>
    rw [List.cons_append, feigned, ih, feigned, Bool.or_assoc]
    rfl

theorem turn?_self {w : Worker} (numbered : s.ledger.Numbered) (here : w ∈ s.workers) (answer : Answer) :
    s.turn? w.seq (.worker w.seq answer) = some (w, answer) := by
  have found := numbered.found here
  simp only [turn?, if_true]
  rw [show s.workers.find? _ = _ from found]
  rfl

theorem turn?_of_ne {seq : Nat} {m : Move} (other : ∀ answer, m ≠ .worker seq answer) :
    s.turn? seq m = none := by
  cases m with
  | worker n answer =>
    have hne : n ≠ seq := fun heq => other answer (heq ▸ rfl)
    exact if_neg hne
  | _ => rfl

/-! ## Runs that leave a task alone -/

end State

/-- A move that neither asks for a shutdown nor for the cancellation of the task. -/
def Move.spares (id : String) : Move → Bool
  | .shutdown => false
  | .cancel x => x ≠ id
  | _ => true

namespace State

/-- Nobody has asked anybody to stop who works on the task. -/
structure Undisturbed (s : State) (id : String) : Prop where
  numbered : s.ledger.Numbered
  manned : s.Manned
  warranted : s.ledger.Warranted
  unasked : .accepted id ∉ s.history
  goesOn : s.shutdown = false
  open' : s.loop ≠ .closing ∧ s.loop ≠ .stopping ∧ s.loop ≠ .draining
  untold : ∀ w ∈ s.workers, w.task.id = id → w.told = false

theorem Undisturbed.requested (h : s.Undisturbed id) : s.ledger.requested id = false := by
  rw [Bool.eq_false_iff]
  exact fun asked => h.unasked (h.warranted.requested asked)

theorem Undisturbed.cancels (h : s.Undisturbed id) {w : Worker} (here : w ∈ s.workers)
    (hid : w.task.id = id) : w.phase.cancels = false := by
  rw [Bool.eq_false_iff]
  exact fun cancels => h.unasked (hid ▸ h.warranted.worker w here cancels)

/-- A run begins undisturbed. -/
theorem Undisturbed.init (c : Setup) (disk : Disk) (id : String) : (State.init c disk).Undisturbed id where
  numbered := .init c disk
  manned := ⟨by simp [State.init], by simp [State.init]⟩
  warranted := .init c disk
  unasked := by simp [State.init]
  goesOn := rfl
  open' := ⟨nofun, nofun, nofun⟩
  untold := by simp [State.init]

/-! ## What others do to the attempts of a task -/

/-- A turn of the loop that has not been told to stop claims the head of the queue for a new worker, or it
leaves the workers alone. -/
theorem stepLoop_workers (s : State) (turn : Turn) (goesOn : s.shutdown = false)
    (open' : s.loop ≠ .closing ∧ s.loop ≠ .stopping ∧ s.loop ≠ .draining) :
    let t := s.stepLoop turn
    (t.shutdown = false ∧ t.loop ≠ .closing ∧ t.loop ≠ .stopping ∧ t.loop ≠ .draining) ∧
      (t.workers = s.workers ∨ ∃ w : Worker, t.workers = s.workers ++ [w] ∧ w.seq = s.nextSeq ∧
        w.phase = .claimed ∧ w.told = false) := by
  have still : (s.shutdown = false ∧ s.loop ≠ .closing ∧ s.loop ≠ .stopping ∧ s.loop ≠ .draining) ∧
      (s.workers = s.workers ∨ ∃ w : Worker, s.workers = s.workers ++ [w] ∧ w.seq = s.nextSeq ∧
        w.phase = .claimed ∧ w.told = false) :=
    ⟨⟨goesOn, open'⟩, Or.inl rfl⟩
  unfold stepLoop
  split
  case h_1 =>
    refine ⟨⟨goesOn, ?_⟩, Or.inl rfl⟩
    show (if s.link = .connected then Loop.acquiring else .paused) ≠ _ ∧ _
    split <;> exact ⟨nofun, nofun, nofun⟩
  case h_5 =>
    unfold claimNext
    cases hqueue : s.queue with
    | nil => exact ⟨⟨goesOn, nofun, nofun, nofun⟩, Or.inl rfl⟩
    | cons task rest =>
      rcases s.writeStatus_cases task.id .running "" with ⟨disk, hw, -⟩ | ⟨e, disk, hw, -⟩ <;> simp only [hw]
      · exact ⟨⟨goesOn, nofun, nofun, nofun⟩, Or.inr ⟨_, rfl, rfl, rfl, rfl⟩⟩
      · exact ⟨⟨goesOn, nofun, nofun, nofun⟩, Or.inl trivial⟩
  -- Not told to stop, it does not get to the steps of a shutdown.
  case h_9 | h_10 | h_11 | h_12 => simpa only [goesOn, Bool.false_eq_true, if_false] using still
  case h_13 hloop => exact absurd hloop open'.1
  case h_14 hloop => exact absurd hloop open'.2.1
  case h_15 hloop | h_16 hloop => exact absurd hloop open'.2.2
  case h_8 => exact ⟨⟨goesOn, nofun, nofun, nofun⟩, Or.inl rfl⟩
  case h_17 => exact still
  all_goals
    split
    · exact ⟨⟨goesOn, nofun, nofun, nofun⟩, Or.inl rfl⟩
    · first
      | exact still
      | exact ⟨⟨goesOn, nofun, nofun, nofun⟩, Or.inl rfl⟩

/-- A move that leaves the workers of a task as they are; a new one may come. -/
structure Beside (s t : State) (id : String) : Prop where
  goesOn : t.shutdown = false
  open' : t.loop ≠ .closing ∧ t.loop ≠ .stopping ∧ t.loop ≠ .draining
  stay : ∀ w ∈ s.workers, w.task.id = id → w ∈ t.workers
  come : ∀ v ∈ t.workers, v.task.id = id →
    v ∈ s.workers ∨ v.seq = s.nextSeq ∧ v.phase = .claimed ∧ v.told = false

theorem Undisturbed.beside_of_eq (h : s.Undisturbed id) {t : State} (workers : t.workers = s.workers)
    (shutdown : t.shutdown = s.shutdown) (loop : t.loop = s.loop) : Beside s t id where
  goesOn := shutdown.trans h.goesOn
  open' := loop ▸ h.open'
  stay := fun _ here _ => workers ▸ here
  come := fun _ here _ => Or.inl (workers ▸ here)

theorem Undisturbed.beside (h : s.Undisturbed id) {m : Move} (spares : m.spares id = true)
    (aside : ∀ seq answer, m ≠ .worker seq answer) : Beside s (s.step c m) id := by
  cases m with
  | worker seq answer => exact absurd rfl (aside seq answer)
  | shutdown => cases spares
  | loop turn =>
    obtain ⟨⟨goesOn, open'⟩, workers⟩ := s.stepLoop_workers turn h.goesOn h.open'
    refine ⟨goesOn, open', ?_, ?_⟩
    · intro w here _
      rcases workers with same | ⟨x, more, -⟩
      · exact same ▸ here
      · exact more ▸ List.mem_append_left _ here
    · intro v hv _
      rcases workers with same | ⟨x, more, new⟩
      · exact Or.inl (same ▸ hv)
      · rcases List.mem_append.mp (more ▸ hv) with old | hv
        · exact Or.inl old
        · exact Or.inr (List.mem_singleton.mp hv ▸ new)
  | cancel x =>
    have hne : x ≠ id := of_decide_eq_true spares
    show Beside s (s.cancel x).2 id
    rcases s.cancel_cases x with ⟨e, disk, -, hs⟩ | ⟨disk, -, -, hs⟩ | ⟨r, hr, hrid, hs⟩ <;> rw [hs]
    · exact h.beside_of_eq rfl rfl rfl
    · exact h.beside_of_eq rfl rfl rfl
    · rcases s.tellRunning_cases r with ⟨-, ht⟩ | ⟨-, ht⟩ <;> rw [ht]
      · exact h.beside_of_eq rfl rfl rfl
      · -- The worker that is told works on the other task.
        have spared {w : Worker} (here : w ∈ s.workers) (hid : w.task.id = id) : w.seq ≠ r.seq := by
          intro hseq
          exact hne (hrid.symm.trans ((h.numbered.claimant r hr w here hseq.symm).1.trans hid))
        refine ⟨h.goesOn, h.open', ?_, ?_⟩
        · intro w here hid
          exact List.mem_map.mpr ⟨w, here, if_neg (spared here hid)⟩
        · intro v hv hid
          obtain ⟨w, here, rfl⟩ := List.mem_map.mp hv
          have same : (if w.seq = r.seq then { w with told := true } else w).task = w.task := by
            split <;> rfl
          rw [if_neg (spared here (same ▸ hid))]
          exact Or.inl here
  | submit x kind payload title =>
    show Beside s (s.submit c x kind payload title).2 id
    rcases s.submit_cases (c := c) x kind payload title with ⟨e, disk, -, hs⟩ | ⟨disk, -, hs⟩ <;> rw [hs] <;>
      exact h.beside_of_eq rfl rfl rfl
  | recover =>
    obtain ⟨disk, queue, cancelling, calls, history, hs⟩ := s.recover_touches (c := c)
    simp only [step, hs]
    exact h.beside_of_eq rfl rfl rfl
  | resume call =>
    simp only [step, resume]
    split
    · exact h.beside_of_eq rfl rfl rfl
    · exact h.beside_of_eq rfl rfl rfl
    · rename_i e es _
      cases e <;> exact h.beside_of_eq rfl rfl rfl
  | start =>
    simp only [step, start]
    split
    · exact ⟨rfl, by simp, fun _ here _ => here, fun _ here _ => Or.inl here⟩
    · exact h.beside_of_eq rfl rfl rfl
  | link link =>
    simp only [step, setLink]
    split <;> exact h.beside_of_eq rfl rfl rfl
  | putRecord r =>
    simp only [step]
    split <;> exact h.beside_of_eq rfl rfl rfl
  | unwatch | clock _ | outage _ _ | heal | deleteRecord _ => exact h.beside_of_eq rfl rfl rfl

/-! ## What a worker does to its own attempt -/

theorem mem_setWorker_of_ne {seq : Nat} {f : Worker → Worker} (keeps : ∀ x, (f x).seq = x.seq) {w : Worker}
    (hne : w.seq ≠ seq) : w ∈ (s.setWorker seq f).workers ↔ w ∈ s.workers := by
  constructor
  · intro hw
    obtain ⟨x, hx, rfl⟩ := List.mem_map.mp hw
    have hxne : x.seq ≠ seq := fun heq => by rw [if_pos heq, keeps] at hne; exact hne heq
    rw [if_neg hxne]
    exact hx
  · exact fun hw => List.mem_map.mpr ⟨w, hw, if_neg hne⟩

/-- What a worker does is about itself: it goes on as the same worker, or it is gone. -/
theorem Worked.workers {t : State} {w : Worker} {answer : Answer} (worked : Worked c s w answer t) :
    (∃ f : Worker → Worker, t.workers = (s.setWorker w.seq f).workers ∧
      ∀ x, (f x).seq = x.seq ∧ (f x).task = x.task ∧ (f x).told = x.told) ∨
      t.workers = s.workers.filter fun x => x.seq ≠ w.seq := by
  have moved {r : State} (same : r.workers = s.workers) (p : Phase) :
      ∃ f : Worker → Worker, (r.setPhase w.seq p).workers = (s.setWorker w.seq f).workers ∧
        ∀ x, (f x).seq = x.seq ∧ (f x).task = x.task ∧ (f x).told = x.told :=
    ⟨fun x => { x with phase := p }, congrArg (List.map _) same, fun _ => ⟨rfl, rfl, rfl⟩⟩
  cases worked with
  | start => exact Or.inl ⟨_, rfl, fun _ => ⟨rfl, rfl, rfl⟩⟩
  | effect e es => exact Or.inl (moved (by cases e <;> rfl) _)
  | vanish => exact Or.inr rfl
  | _ => exact Or.inl (moved rfl _)

theorem Worked.others {t : State} {w v : Worker} {answer : Answer} (worked : Worked c s w answer t)
    (hne : v.seq ≠ w.seq) : v ∈ t.workers ↔ v ∈ s.workers := by
  rcases worked.workers with ⟨f, workers, keeps⟩ | workers <;> rw [workers]
  · exact mem_setWorker_of_ne (fun x => (keeps x).1) hne
  · simp [hne]

theorem Worked.heirs {t : State} {w v : Worker} {answer : Answer} (worked : Worked c s w answer t)
    (hv : v ∈ t.workers) : ∃ x ∈ s.workers, x.seq = v.seq ∧ x.task = v.task ∧ x.told = v.told := by
  rcases worked.workers with ⟨f, workers, keeps⟩ | workers <;> rw [workers] at hv
  · rcases Ledger.mem_setWorker (l := s.ledger) hv with ⟨old, -⟩ | ⟨x, hx, -, rfl⟩
    · exact ⟨v, old, rfl, rfl, rfl⟩
    · obtain ⟨seq, task, told⟩ := keeps x
      exact ⟨x, hx, seq.symm, task.symm, told.symm⟩
  · exact ⟨v, (List.mem_filter.mp hv).1, rfl, rfl, rfl⟩

/-- Seen from a worker of the task: a move of anybody else. -/
theorem Undisturbed.others (h : s.Undisturbed id) {m : Move} (spares : m.spares id = true) {v : Worker}
    (hid : v.task.id = id) (other : ∀ answer, m ≠ .worker v.seq answer) :
    (v ∈ s.workers → v ∈ (s.step c m).workers) ∧
      (v ∈ (s.step c m).workers →
        v ∈ s.workers ∨ v.seq = s.nextSeq ∧ v.phase = .claimed ∧ v.told = false) := by
  by_cases aside : ∀ seq answer, m ≠ .worker seq answer
  · have beside := h.beside (c := c) spares aside
    exact ⟨fun here => beside.stay v here hid, fun here => beside.come v here hid⟩
  · simp only [ne_eq, not_forall, not_not] at aside
    obtain ⟨seq, answer, rfl⟩ := aside
    have hne : v.seq ≠ seq := fun heq => other answer (heq ▸ rfl)
    show (v ∈ s.workers → v ∈ (s.stepWorker c seq answer).workers) ∧
      (v ∈ (s.stepWorker c seq answer).workers → _)
    rcases s.stepWorker_cases (c := c) seq answer with same | ⟨w, -, rfl, worked⟩
    · rw [same]
      exact ⟨fun here => here, Or.inl⟩
    · exact ⟨(worked.others hne).mpr, fun here => Or.inl ((worked.others hne).mp here)⟩

theorem Worked.shutdown {t : State} {w : Worker} {answer : Answer} (worked : Worked c s w answer t) :
    t.shutdown = s.shutdown := by
  cases worked with
  | effect e => cases e <;> rfl
  | _ => rfl

/-- A move that leaves the task alone leaves its attempts undisturbed. -/
theorem Undisturbed.step (h : s.Undisturbed id) {m : Move} (spares : m.spares id = true) :
    (s.step c m).Undisturbed id := by
  have patient : m.givesUp s = false := by
    unfold Move.givesUp
    split
    · exact decide_eq_false h.open'.2.2
    · rfl
  have unasked : .accepted id ∉ (s.step c m).history := by
    intro accepted
    rcases s.accepted_step m accepted with old | ⟨rfl, -⟩
    · exact h.unasked old
    · exact of_decide_eq_true spares rfl
  have numbered := numbered_step (c := c) h.numbered m
  have manned := h.manned.step (c := c) h.numbered patient
  have warranted := warranted_step (c := c) h.warranted h.numbered m
  by_cases aside : ∀ seq answer, m ≠ .worker seq answer
  · have beside := h.beside (c := c) spares aside
    refine ⟨numbered, manned, warranted, unasked, beside.goesOn, beside.open', fun v hv hid => ?_⟩
    rcases beside.come v hv hid with old | ⟨-, -, untold⟩
    · exact h.untold v old hid
    · exact untold
  · simp only [ne_eq, not_forall, not_not] at aside
    obtain ⟨seq, answer, rfl⟩ := aside
    rcases s.stepWorker_cases (c := c) seq answer with same | ⟨w, here, -, worked⟩
    · have same : s.step c (.worker seq answer) = s := same
      exact same.symm ▸ h
    · have loop := (worked.apart here).loop_next.1
      refine ⟨numbered, manned, warranted, unasked, worked.shutdown.trans h.goesOn, ?_, fun v hv hid => ?_⟩
      · show (s.stepWorker c seq answer).loop ≠ _ ∧ (s.stepWorker c seq answer).loop ≠ _ ∧
          (s.stepWorker c seq answer).loop ≠ _
        rw [loop]
        exact h.open'
      · obtain ⟨x, hx, -, task, told⟩ := worked.heirs hv
        exact told ▸ h.untold x hx (task ▸ hid)

/-- An answer that a worker has no use for changes nothing and counts for nothing. -/
theorem stepWorker_own (numbered : s.ledger.Numbered) {w : Worker} (here : w ∈ s.workers) (answer : Answer) :
    (s.stepWorker c w.seq answer = s ∧ answer.feigns w = false ∧ s.tried w answer = []) ∨
      Worked c s w answer (s.stepWorker c w.seq answer) := by
  have found : (s.workers.find? fun x => x.seq = w.seq) = some w := numbered.found here
  by_cases writes : ∃ e attempt, w.phase = .writing e attempt ∧ answer = .go
  · obtain ⟨e, attempt, phase, rfl⟩ := writes
    right
    have tries : s.stepWorker c w.seq .go = s.tryWrite w e attempt := by simp [stepWorker, found, phase]
    exact tries ▸ s.tryWrite_worked w e attempt phase
  · have untried : s.tried w answer = [] := by
      unfold tried
      split
      · rename_i e attempt phase
        exact absurd ⟨e, attempt, phase, rfl⟩ writes
      · rfl
    rcases s.stepWorker_cases (c := c) w.seq answer with same | ⟨x, hx, hseq, worked⟩
    · cases feint : answer.feigns w with
      | false => exact Or.inl ⟨same, rfl, untried⟩
      | true =>
        -- A feint is an answer that the worker waits for.
        right
        unfold Answer.feigns at feint
        split at feint
        · rename_i t failure phase
          have step : s.stepWorker c w.seq (.fetched (.error failure)) = s.setPhase w.seq (.ended (.error failure)) := by
            simp [stepWorker, found, phase]
          rw [step]
          exact .advance _ [] (.unfetched t failure phase) (fun _ _ => Or.inr (by simp [heed, phase]))
            (by simp [phase])
        · rename_i t failure phase
          have step : s.stepWorker c w.seq (.stored (.error failure)) = s.setPhase w.seq (.stored t (.error failure)) := by
            simp [stepWorker, found, phase]
          rw [step]
          exact .advance _ [] (.stored t _ phase) (fun _ _ => Or.inr (by simp [heed, phase])) (by simp [phase])
        · cases feint
    · obtain rfl := numbered.worker_eq hx here hseq
      exact Or.inr worked

/-- The phase of the worker that has moved. -/
theorem phase_of_mem_setPhase {t : State} {seq : Nat} {p : Phase} {v : Worker}
    (hv : v ∈ (t.setPhase seq p).workers) (hseq : v.seq = seq) : v.phase = p := by
  rcases Ledger.mem_setWorker (l := t.ledger) hv with ⟨-, other⟩ | ⟨w, -, -, rfl⟩
  · exact absurd hseq other
  · rfl

/-- Where a worker waits, it is the answer that leads it on. -/
theorem feigns_of_heed {w : Worker} {answer : Answer} {p : Phase} (heeds : heed w answer = some p) :
    p.proceeds = !answer.feigns w ∧ p.stops = answer.feigns w := by
  unfold heed at heeds
  unfold Answer.feigns
  split at heeds <;> cases heeds
  · rename_i t phase
    simp [phase, Phase.proceeds, Phase.stops]
  · rename_i t failure phase
    simp [phase, Phase.proceeds, Phase.stops, saysStopped]
  · rename_i t result phase
    cases result <;> simp [phase, Phase.proceeds, Phase.stops, saysStopped]

end State

/-- A worker that nobody has told to stop stays on its trail. -/
theorem Trail.advance {feigned : Bool} {tries : List Try} {w : Worker} {answer : Answer} {p : Phase}
    {hs : List Happening} (trail : Trail feigned tries w.phase) (next : Next c s.ledger w p hs)
    (heeds : State.Heeds w answer p) (unwritten : ∀ e attempt, w.phase ≠ .writing e attempt)
    (untold : w.told = false) (unasked : s.ledger.requested w.task.id = false) :
    Trail (feigned || answer.feigns w) tries p := by
  -- Elsewhere than at its fetcher or its storage a worker hears nothing.
  have deaf (elsewhere : ∀ t, w.phase ≠ .fetching t ∧ w.phase ≠ .storing t) : answer.feigns w = false := by
    unfold Answer.feigns
    split
    · exact absurd ‹_› (elsewhere _).1
    · exact absurd ‹_› (elsewhere _).2
    · rfl
  have heard (t : Transfer) (waits : w.phase = .fetching t ∨ w.phase = .storing t)
      (genuine : feigned = false) (untried : tries = []) : Trail (feigned || answer.feigns w) tries p := by
    obtain ⟨proceeds, stops⟩ := State.feigns_of_heed ((heeds t waits).resolve_left (by simp [untold]))
    subst genuine
    rw [Bool.false_or]
    cases hfeint : answer.feigns w with
    | false => exact .working (proceeds.trans (by rw [hfeint]; rfl)) rfl untried
    | true => exact .stopping (stops.trans hfeint) rfl untried
  cases next with
  | fetch t phase =>
    obtain ⟨genuine, untried⟩ := trail.of_proceeds (by rw [phase]; rfl)
    exact .working rfl (by rw [genuine, deaf (by simp [phase])]; rfl) untried
  | stop t phase told => simp [untold] at told
  | fetched t phase =>
    obtain ⟨genuine, untried⟩ := trail.of_proceeds (by rw [phase]; rfl)
    exact heard t (Or.inl phase) genuine untried
  | unfetched t failure phase =>
    obtain ⟨genuine, untried⟩ := trail.of_proceeds (by rw [phase]; rfl)
    exact heard t (Or.inl phase) genuine untried
  | stored t result phase =>
    obtain ⟨genuine, untried⟩ := trail.of_proceeds (by rw [phase]; rfl)
    exact heard t (Or.inr phase) genuine untried
  | judge t result phase =>
    rw [untold]
    obtain ⟨stops, proceeds⟩ := storedPhase_untold (c.kinds.get? w.task.kind) t result
    rw [deaf (by simp [phase]), Bool.or_false]
    cases hstop : saysStopped result with
    | false =>
      obtain ⟨genuine, untried⟩ := trail.of_proceeds (by rw [phase]; exact congrArg not hstop)
      exact .working (proceeds.trans (congrArg not hstop)) genuine untried
    | true =>
      obtain ⟨feint, untried⟩ := trail.of_stops (by rw [phase]; exact hstop)
      exact .stopping (stops.trans hstop) feint untried
  | rolledBack t phase =>
    obtain ⟨feint, untried⟩ := trail.of_stops (by rw [phase]; rfl)
    exact .stopping rfl (by rw [feint]; rfl) untried
  | settle result millis phase =>
    rw [untold, deaf (by simp [phase]), Bool.or_false]
    rcases endedPhase_untold w.task.remaining millis result with ⟨hstop, hp⟩ | ⟨hstop, e, hp⟩ <;> rw [hp]
    · obtain ⟨feint, untried⟩ := trail.of_stops (by rw [phase]; exact hstop)
      exact .stopping rfl feint untried
    · obtain ⟨genuine, untried⟩ := trail.of_proceeds (by rw [phase]; exact congrArg not hstop)
      exact .writing e [] genuine untried (by decide)
  | interrupted phase asked =>
    obtain ⟨feint, untried⟩ := trail.of_stops (by rw [phase]; rfl)
    exact .stopping rfl (by rw [feint]; rfl) untried
  | cancelled phase asked => simp [unasked] at asked
  | refused e attempt phase | givenUp e attempt phase => exact absurd phase (unwritten e attempt)
  | again e attempt phase aborted =>
    rw [deaf (by simp [phase]), Bool.or_false]
    rw [phase] at trail
    cases trail with
    | pausing e errs genuine refused more => exact .writing e errs genuine refused more
    | working proceeds => cases proceeds
    | stopping stops => cases stops

namespace State

theorem tried_eq_nil {w : Worker} (unwritten : ∀ e attempt, w.phase ≠ .writing e attempt) (answer : Answer) :
    s.tried w answer = [] := by
  unfold tried
  split
  · exact absurd ‹_› (unwritten _ _)
  · rfl

theorem Undisturbed.trail_step (h : s.Undisturbed id) {w : Worker} (here : w ∈ s.workers)
    (hid : w.task.id = id) {feigned : Bool} {tries : List Try} (trail : Trail feigned tries w.phase)
    (answer : Answer) {v : Worker} (hv : v ∈ (s.stepWorker c w.seq answer).workers) (hseq : v.seq = w.seq) :
    Trail (feigned || answer.feigns w) (tries ++ s.tried w answer) v.phase := by
  have unasked : s.ledger.requested w.task.id = false := hid ▸ h.requested
  have uncancelled := h.cancels here hid
  rcases s.stepWorker_own (c := c) h.numbered here answer with ⟨same, genuine, untried⟩ | worked
  · rw [same] at hv
    obtain rfl := h.numbered.worker_eq hv here hseq
    simpa [genuine, untried] using trail
  · generalize s.stepWorker c w.seq answer = t at hv worked
    cases worked with
    | start phase =>
      obtain ⟨genuine, untried⟩ := trail.of_proceeds (by rw [phase]; rfl)
      rcases Ledger.mem_setWorker (l := s.ledger) hv with ⟨-, other⟩ | ⟨x, -, -, rfl⟩
      · exact absurd hseq other
      · exact .working (openingPhase_proceeds c x.task) (by simp [genuine, Answer.feigns, phase])
          (by simp [untried, tried, phase])
    | advance p hs next heeds unwritten =>
      rw [phase_of_mem_setPhase hv hseq, tried_eq_nil unwritten, List.append_nil]
      exact trail.advance next heeds unwritten (h.untold w here hid) unasked
    | refused e attempt err disk p go phase store refused reason =>
      subst go
      have tried : s.tried w .go = [refusal e err] := by simp [tried, phase, refused, refusal]
      rw [phase_of_mem_setPhase hv hseq, tried]
      rw [phase] at trail uncancelled
      obtain ⟨genuine, errs, before, more, rfl⟩ := trail.of_writing
      have refusals : tries ++ [refusal e err] = (errs ++ [err]).map (refusal e) := by simp [before]
      have genuine : (feigned || Answer.go.feigns w) = false := by simp [genuine, Answer.feigns, phase]
      have count : (errs ++ [err]).length = errs.length + 1 := by simp
      rcases reason with ⟨again, rfl⟩ | ⟨last, rfl⟩
      · rw [← count]
        exact .pausing e (errs ++ [err]) genuine refusals (count ▸ again)
      · have gone : givenUpPhase e = .abandoning := by
          cases e with
          | lateCancel => cases uncancelled
          | _ => rfl
        rw [gone]
        refine .abandoning e (errs ++ [err]) genuine refusals (last.imp ?_ ?_)
        · intro last
          omega
        · rintro ⟨x, rfl⟩
          exact ⟨x, by simp⟩
    | finish e attempt disk go phase releases =>
      rw [phase_of_mem_setPhase hv hseq]
      cases e with
      | retry | lateCancel => cases releases
      | _ => exact .gone _
    | store e attempt disk go phase keeps stored writes =>
      subst go
      have tried : s.tried w .go = [(e, .ok ())] := by simp [tried, phase, stored]
      rw [phase_of_mem_setPhase hv hseq, tried]
      rw [phase] at trail uncancelled
      obtain ⟨genuine, errs, before, -, -⟩ := trail.of_writing
      cases e with
      | lateCancel => cases uncancelled
      | completed | cancelled | failed => cases keeps
      | retry failure left =>
        exact .requeueing failure left errs (by simp [genuine, Answer.feigns, phase]) (by rw [before])
    | letGo | requeue | effect =>
      rw [phase_of_mem_setPhase hv hseq]
      exact .gone _
    | holdBack failure remaining phase asked =>
      rw [unasked] at asked
      cases asked
    | clear phase =>
      rw [phase_of_mem_setPhase hv hseq]
      exact .gone _
    | vanish ended => simp [finishWorker, hseq] at hv

end State

/-! ## How attempts end -/

/-- The attempt of `w` ends: it has held its task, and it does so no longer. -/
def Ledger.Ends (l l' : Ledger) (w : Worker) : Prop :=
  w ∈ l.workers ∧ w.phase.holds = true ∧ ∀ v ∈ l'.workers, v.seq = w.seq → v.phase.holds = false

/-- How an attempt ends that leaves the task to itself or to the next attempt: its end is stored, or it is
back in the queue, or its status was refused until the worker gave up. -/
inductive Concludes (t : State) (w : Worker) (tries : List Try) : Prop
  | stored (e : Ending) (errs : List Store.Error) (kind : e.status = .completed ∨ e.status = .failed)
      (tried : tries = errs.map (refusal e) ++ [(e, .ok ())])
      (record : t.disk.store.status? w.task.id = some e.status)
  | requeued (failure : Failure) (left : Nat) (errs : List Store.Error)
      (tried : tries = errs.map (refusal (.retry failure left)) ++ [(.retry failure left, .ok ())])
      (queued : { w.task with remaining := left } ∈ t.queue)
  | abandoned (e : Ending) (errs : List Store.Error) (refused : tries = errs.map (refusal e))
      (out : GivenUp errs)

/-- There is a write to show for it. -/
theorem Concludes.tries_ne_nil {t : State} {w : Worker} {tries : List Try} (h : Concludes t w tries) :
    tries ≠ [] := by
  rintro rfl
  cases h with
  | stored e errs kind tried => simp at tried
  | requeued failure left errs tried => simp at tried
  | abandoned e errs refused out =>
    exact out.ne_nil (List.map_eq_nil_iff.mp refused.symm)

namespace State

/-- That the task was interrupted has been reported, or its worker is about to report it. -/
def Interrupted (s : State) (id : String) : Prop :=
  .reported (.interrupted id) ∈ s.history ∨
    ∃ w ∈ s.workers, w.task.id = id ∧ ∃ es, w.phase = .effects es ∧ .report (.interrupted id) ∈ es

theorem mem_setPhase_self {seq : Nat} {p : Phase} {w : Worker} (here : w ∈ s.workers) (hseq : w.seq = seq) :
    { w with phase := p } ∈ (s.setPhase seq p).workers :=
  List.mem_map.mpr ⟨w, here, if_pos hseq⟩

/-- A worker that is still there and holds its task has not ended its attempt. -/
theorem holds_of_ended {t : State} {w : Worker} {p : Phase} (here : w ∈ s.workers)
    (ended : ∀ v ∈ t.workers, v.seq = w.seq → v.phase.holds = false) {r : State} (after : t = r.setPhase w.seq p)
    (same : r.workers = s.workers) : p.holds = false := by
  have moved : { w with phase := p } ∈ t.workers := by
    rw [after]
    exact mem_setPhase_self (same.symm ▸ here) rfl
  exact ended _ moved rfl

/-- The conclusion of an attempt by the step of its worker from `s` to `t`. -/
abbrev Closes (s t : State) (w : Worker) (answer : Answer) (feigned : Bool) (tries : List Try) : Prop :=
  feigned = false ∧ Concludes t w (tries ++ s.tried w answer) ∨
    feigned = true ∧ tries ++ s.tried w answer = [] ∧ t.Interrupted w.task.id

section

variable {w : Worker} {answer : Answer} {feigned : Bool} {tries : List Try}

/-- An end is stored, with the release of the task. -/
theorem closes_of_finish {t : State} {e : Ending} {attempt : Nat} (trail : Trail feigned tries w.phase)
    (uncancelled : w.phase.cancels = false) (phase : w.phase = .writing e attempt) (releases : e.releases = true)
    (stored : (s.writeStatus w.task.id e.status e.error).1 = .ok ())
    (record : t.disk.store.status? w.task.id = some e.status) : Closes s t w .go feigned tries := by
  have tried : s.tried w .go = [(e, .ok ())] := by simp [tried, phase, stored]
  rw [phase] at trail uncancelled
  obtain ⟨genuine, errs, refused, -, -⟩ := trail.of_writing
  refine Or.inl ⟨genuine, .stored e errs ?_ (by rw [refused, tried]) record⟩
  cases e with
  | completed => exact Or.inl rfl
  | failed => exact Or.inr rfl
  | cancelled => cases uncancelled
  | retry | lateCancel => cases releases

/-- A worker lets go of its task, stopped or after its last refusal. -/
theorem closes_of_letGo {r : State} {es : List Effect} (trail : Trail feigned tries w.phase)
    (same : r.workers = s.workers) (here : w ∈ s.workers)
    (reason : w.phase = .leaving ∧ es = [.report (.interrupted w.task.id)] ∨ w.phase = .abandoning ∧ es = []) :
    Closes s (r.setPhase w.seq (.effects es)) w answer feigned tries := by
  rcases reason with ⟨phase, rfl⟩ | ⟨phase, rfl⟩
  · obtain ⟨feint, untried⟩ := trail.of_stops (by rw [phase]; rfl)
    refine Or.inr ⟨feint, ?_, Or.inr ⟨_, mem_setPhase_self (same.symm ▸ here) rfl, rfl, _, rfl, List.mem_cons_self⟩⟩
    rw [tried_eq_nil (by simp [phase]), untried, List.append_nil]
  · rw [Closes, tried_eq_nil (by simp [phase]), List.append_nil]
    rw [phase] at trail
    obtain ⟨genuine, e, errs, refused, out⟩ := trail.of_abandoning
    exact Or.inl ⟨genuine, .abandoned e errs refused out⟩

/-- The task is back in the queue. -/
theorem closes_of_requeue {t : State} {failure : Failure} {remaining : Nat} (trail : Trail feigned tries w.phase)
    (phase : w.phase = .requeueing failure remaining) (queued : { w.task with remaining } ∈ t.queue) :
    Closes s t w answer feigned tries := by
  rw [Closes, tried_eq_nil (by simp [phase]), List.append_nil]
  rw [phase] at trail
  obtain ⟨genuine, errs, stored⟩ := trail.of_requeueing
  exact Or.inl ⟨genuine, .requeued failure remaining errs stored queued⟩

/-- A worker's own step that ends its attempt is one of these three. -/
theorem Undisturbed.closes (h : s.Undisturbed id) (here : w ∈ s.workers) (hid : w.task.id = id)
    (holds : w.phase.holds = true) (trail : Trail feigned tries w.phase) {t : State} (worked : Worked c s w answer t)
    (ended : ∀ v ∈ t.workers, v.seq = w.seq → v.phase.holds = false) : Closes s t w answer feigned tries := by
  have uncancelled := h.cancels here hid
  cases worked with
  | finish e attempt disk go phase releases stored writes =>
    subst go
    exact closes_of_finish trail uncancelled phase releases stored writes.status?_self
  | letGo es reason => exact closes_of_letGo trail rfl here reason
  | requeue failure remaining phase =>
    exact closes_of_requeue trail phase (List.mem_append_right _ List.mem_cons_self)
  -- After these the worker holds its task as before.
  | start phase =>
    have moved : { w with phase := openingPhase c w.task, started := s.now } ∈
        ((s.note (.reported (.started w.task.id w.task.attempts))).setWorker w.seq fun w =>
          { w with phase := openingPhase c w.task, started := s.now }).workers :=
      List.mem_map.mpr ⟨w, here, if_pos rfl⟩
    have gone : (openingPhase c w.task).holds = false := ended _ moved rfl
    rw [Phase.holds_of_proceeds (openingPhase_proceeds c w.task)] at gone
    cases gone
  | advance p hs next =>
    have gone := holds_of_ended here ended rfl rfl
    rw [next.holds.trans holds] at gone
    cases gone
  | refused e attempt err disk p go phase store refused reason =>
    rw [phase] at uncancelled
    have gone := holds_of_ended here ended rfl rfl
    -- Only a late cancellation is written by a worker that has let go.
    rcases reason with ⟨-, rfl⟩ | ⟨-, rfl⟩ <;> cases e <;> first | (cases gone; done) | cases uncancelled
  | store e attempt disk go phase keeps stored writes =>
    rw [phase] at uncancelled
    have gone := holds_of_ended here ended rfl rfl
    cases e with
    | retry failure left => cases gone
    | lateCancel => cases uncancelled
    | completed | cancelled | failed => cases keeps
  -- These are not for it to take.
  | holdBack failure remaining phase asked =>
    rw [hid, h.requested] at asked
    cases asked
  | clear phase | effect e es phase =>
    rw [phase] at holds
    cases holds
  | vanish gone =>
    rcases gone with phase | ⟨aborted, -⟩
    · rw [phase] at holds
      cases holds
    · rw [h.manned.kept w here] at aborted
      cases aborted

/-- An attempt ends by a step of its worker. Without a feint it concludes; after one nothing was written. -/
theorem Undisturbed.ends (h : s.Undisturbed id) {m : Move} (spares : m.spares id = true)
    (ends : s.ledger.Ends (s.step c m).ledger w) (hid : w.task.id = id) (trail : Trail feigned tries w.phase) :
    let tries' := tries ++ ((s.turn? w.seq m).elim [] fun x => s.tried x.1 x.2)
    feigned = false ∧ Concludes (s.step c m) w tries' ∨
      feigned = true ∧ tries' = [] ∧ (s.step c m).Interrupted id := by
  obtain ⟨here, holds, ended⟩ := ends
  have stays : w ∉ (s.step c m).workers := fun still => by
    rw [ended w still rfl] at holds
    cases holds
  by_cases own : ∃ answer, m = .worker w.seq answer
  · obtain ⟨answer, rfl⟩ := own
    rw [turn?_self h.numbered here]
    rcases s.stepWorker_own (c := c) h.numbered here answer with ⟨same, -⟩ | worked
    · exact absurd (show w ∈ (s.stepWorker c w.seq answer).workers from same.symm ▸ here) stays
    · rw [← hid]
      exact h.closes here hid holds trail worked ended
  · exact absurd ((h.others spares hid fun answer heq => own ⟨answer, heq⟩).1 here) stays

end

/-! ## Runs -/

theorem nextSeq_step (s : State) (m : Move) : s.nextSeq ≤ (s.step c m).nextSeq := by
  rcases m.fresh_or_submit s with fresh | ⟨x, kind, payload, title, rfl⟩
  · refine Acts.preserves (P := fun l => s.nextSeq ≤ l.nextSeq) ?_ (step_acts (act_of_fresh (c := c) fresh)) (Nat.le_refl _)
    intro l l' before act
    rcases act.seqs with ⟨-, same⟩ | ⟨-, more⟩ <;> omega
  · exact Nat.le_of_eq (staff_eq_iff.mp (s.staff_submit x kind payload title).1).2.1.symm

theorem turn?_beyond (numbered : s.ledger.Numbered) {seq : Nat} (beyond : s.nextSeq ≤ seq) (m : Move) :
    s.turn? seq m = none := by
  cases m with
  | worker n answer =>
    show (if n = seq then _ else _) = none
    split
    · rename_i heq
      subst heq
      rw [Option.map_eq_none_iff, List.find?_eq_none]
      intro w here hseq
      have below : w.seq < s.nextSeq := numbered.seqs_lt w here
      have hseq : w.seq = n := of_decide_eq_true hseq
      omega
    · rfl
  | _ => rfl

/-- What a run that leaves a task alone has made of its attempts. -/
structure Traced (c : Setup) (s : State) (ms : List Move) (id : String) : Prop where
  undisturbed : (s.run c ms).Undisturbed id
  unused : ∀ seq, (s.run c ms).nextSeq ≤ seq → s.feigned c seq ms = false ∧ s.tries c seq ms = []
  trail : ∀ w ∈ (s.run c ms).workers, w.task.id = id →
    Trail (s.feigned c w.seq ms) (s.tries c w.seq ms) w.phase

theorem Traced.concat {ms : List Move} (h : Traced c s ms id) {m : Move} (spares : m.spares id = true) :
    Traced c s (ms ++ [m]) id := by
  have unmoved {seq : Nat} (still : (s.run c ms).turn? seq m = none) :
      s.feigned c seq (ms ++ [m]) = s.feigned c seq ms ∧ s.tries c seq (ms ++ [m]) = s.tries c seq ms := by
    rw [feigned_concat, tries_concat, still]
    simp
  have unused {seq : Nat} (beyond : (s.run c ms).nextSeq ≤ seq) :
      s.feigned c seq (ms ++ [m]) = false ∧ s.tries c seq (ms ++ [m]) = [] := by
    obtain ⟨feigned, tries⟩ := unmoved (turn?_beyond h.undisturbed.numbered beyond m)
    rw [feigned, tries]
    exact h.unused seq beyond
  refine ⟨?_, ?_, ?_⟩ <;> rw [run_concat]
  · exact h.undisturbed.step spares
  · exact fun seq beyond => unused (Nat.le_trans (nextSeq_step _ m) beyond)
  · intro v hv hid
    by_cases own : ∃ answer, m = .worker v.seq answer
    · obtain ⟨answer, rfl⟩ := own
      obtain ⟨w, here, hseq, htask⟩ : ∃ w ∈ (s.run c ms).workers, w.seq = v.seq ∧ w.task = v.task := by
        rcases (s.run c ms).stepWorker_cases (c := c) v.seq answer with same | ⟨x, -, -, worked⟩
        · exact ⟨v, same ▸ hv, rfl, rfl⟩
        · obtain ⟨w, here, hseq, htask, -⟩ := worked.heirs hv
          exact ⟨w, here, hseq, htask⟩
      have hid : w.task.id = id := htask ▸ hid
      rw [← hseq] at hv ⊢
      rw [feigned_concat, tries_concat, turn?_self h.undisturbed.numbered here]
      exact h.undisturbed.trail_step here hid (h.trail w here hid) answer hv hseq.symm
    · have other : ∀ answer, m ≠ .worker v.seq answer := fun answer heq => own ⟨answer, heq⟩
      rcases (h.undisturbed.others (c := c) spares hid other).2 hv with old | ⟨hseq, phase, -⟩
      · obtain ⟨feigned, tries⟩ := unmoved (turn?_of_ne other)
        rw [feigned, tries]
        exact h.trail v old hid
      · obtain ⟨genuine, untried⟩ := unused (Nat.le_of_eq hseq.symm)
        exact .working (by rw [phase]; rfl) genuine untried

theorem Traced.run (c : Setup) (disk : Disk) {ms : List Move} (spared : ∀ m ∈ ms, m.spares id = true) :
    Traced c (State.init c disk) ms id := by
  induction ms using List.reverseRecOn with
  | nil => exact ⟨.init c disk id, fun _ _ => ⟨rfl, rfl⟩, by simp [State.run, State.init]⟩
  | append_singleton ms m ih =>
    exact (ih fun n hn => spared n (by simp [hn])).concat (spared m (by simp))

/-- If an act takes something away only by ending an attempt, then so does a move. -/
theorem kept_or_ends {P : Ledger → Prop} {Q : Worker → Prop} {m : Move}
    (acts : ∀ {l l' : Ledger}, P l → Act c .any l l' → P l' ∨ ∃ w, Q w ∧ l.Ends l' w)
    (submits : ∀ id kind payload title, P s.ledger → P (s.submit c id kind payload title).2.ledger)
    (h : P s.ledger) :
    P (s.step c m).ledger ∨ ∃ w, Q w ∧ s.ledger.Ends (s.step c m).ledger w := by
  rcases m.fresh_or_submit s with fresh | ⟨id, kind, payload, title, rfl⟩
  · rcases act_of_fresh (c := c) fresh with rfl | act
    · -- No attempt ends by a recovery.
      left
      have aside := s.recover_acts (c := c) (E := .any)
      show P (s.recover c).2.ledger
      generalize (s.recover c).2.ledger = l' at aside
      induction aside with
      | refl => exact h
      | tail _ act ih =>
        refine (acts ih act.1).resolve_right ?_
        rintro ⟨w, -, here, holds, ended⟩
        rw [ended w (act.2.symm ▸ here) rfl] at holds
        cases holds
    · rcases (Relation.reflGen_iff _ _ _).mp act with same | act
      · exact Or.inl (same.symm ▸ h)
      · exact acts h act
  · exact Or.inl (submits id kind payload title h)

end State

open Ledger in
/-- A task leaves the running set when the attempt of a worker ends. -/
theorem Act.running_or_ends (act : Act c E l l') (running : id ∈ l.runningIds) :
    id ∈ l'.runningIds ∨ ∃ w, w.task.id = id ∧ l.Ends l' w := by
  have leaves {w : Worker} {p : Phase} (here : w ∈ l.workers) (holds : w.phase.holds = true)
      (run : l'.runningIds = (l.release w.task.id).runningIds)
      (workers : l'.workers = (l.setPhase w.seq p).workers) (gone : p.holds = false) :
      id ∈ l'.runningIds ∨ ∃ w, w.task.id = id ∧ l.Ends l' w := by
    by_cases hid : id = w.task.id
    · refine Or.inr ⟨w, hid.symm, here, holds, fun v hv hseq => ?_⟩
      rcases mem_setWorker (workers ▸ hv) with ⟨-, other⟩ | ⟨x, -, -, rfl⟩
      · exact absurd hseq other
      · exact gone
    · left
      rw [run, mem_release]
      exact ⟨running, hid⟩
  cases act with
  | tell r found first =>
    left
    show id ∈ List.map Running.id _
    rw [map_id_tell]
    exact running
  | claim task rest store head =>
    left
    have entries : (l.release task.id).runningIds ++ [task.id] =
        ((l.running.filter fun r => r.id ≠ task.id) ++
          [({ id := task.id, title := task.title, createdAt := task.createdAt, seq := l.nextSeq,
              cancelRequested := false } : Running)]).map Running.id := by
      simp [runningIds, release]
    show id ∈ List.map Running.id _
    rw [← entries, List.mem_append, mem_release, List.mem_singleton]
    by_cases hid : id = task.id
    · exact Or.inr hid
    · exact Or.inl ⟨running, hid⟩
  | finish w e attempt store here phase releases =>
    refine leaves here (by rw [phase, Phase.holds_writing releases]) rfl rfl ?_
    cases e <;> first | rfl | cases releases
  | letGo w es here phase => exact leaves here (Phase.holds_of_leaves phase).1 rfl rfl rfl
  | requeue w failure remaining here phase => exact leaves here (by rw [phase]; rfl) rfl rfl rfl
  | holdBack w failure remaining here phase => exact leaves here (by rw [phase]; rfl) rfl rfl rfl
  | _ => exact Or.inl running

open Ledger in
/-- That a task was interrupted is reported when the attempt of a worker has ended that was about to leave
it. -/
theorem Act.interrupts (act : Act c E l l')
    (quiet : ¬(.reported (.interrupted id) ∈ l.history ∨ l.Owes (.interrupted id))) :
    ¬(.reported (.interrupted id) ∈ l'.history ∨ l'.Owes (.interrupted id)) ∨
      ∃ w, (w.task.id = id ∧ w.phase = .leaving) ∧ l.Ends l' w := by
  by_cases after : .reported (.interrupted id) ∈ l'.history ∨ l'.Owes (.interrupted id)
  · right
    rw [not_or] at quiet
    rcases after with reported | owes
    · rcases act.reported reported with old | owes | now
      · exact absurd old quiet.1
      · exact absurd owes quiet.2
      · cases now
    · rcases act.incurs owes with old | incurs
      · exact absurd old quiet.2
      · cases incurs with
        | interrupted w here phase left => exact ⟨w, ⟨rfl, phase⟩, here, by rw [phase]; rfl, left⟩
  · exact Or.inl after

namespace State

/-! ## What is reported of an interruption -/

theorem Interrupted.owes (h : s.Interrupted id) :
    .reported (.interrupted id) ∈ s.history ∨ s.ledger.Owes (.interrupted id) := by
  refine h.imp_right ?_
  rintro ⟨w, here, -, es, phase, he⟩
  exact Or.inr ⟨w, here, es, phase, he⟩

/-- The report of an interruption is not lost. -/
theorem Undisturbed.interrupted_step (h : s.Undisturbed id) {m : Move} (spares : m.spares id = true)
    (interrupted : s.Interrupted id) : (s.step c m).Interrupted id := by
  rcases interrupted with reported | ⟨w, here, hid, es, phase, he⟩
  · obtain ⟨hs, history⟩ := s.history_step (c := c) m
    exact Or.inl (history ▸ List.mem_append_right _ reported)
  · by_cases own : ∃ answer, m = .worker w.seq answer
    · obtain ⟨answer, rfl⟩ := own
      show (s.stepWorker c w.seq answer).Interrupted id
      rcases s.stepWorker_own (c := c) h.numbered here answer with ⟨same, -⟩ | worked
      · rw [same]
        exact Or.inr ⟨w, here, hid, es, phase, he⟩
      · generalize s.stepWorker c w.seq answer = t at worked
        cases worked with
        | effect e rest first =>
          rw [phase] at first
          cases first
          rcases List.mem_cons.mp he with rfl | he
          · exact Or.inl List.mem_cons_self
          · refine Or.inr ⟨_, mem_setPhase_self (w := w) ?_ rfl, hid, rest, rfl, he⟩
            cases e <;> exact here
        | vanish gone =>
          rcases gone with first | ⟨aborted, -⟩
          · rw [phase] at first
            cases first
            cases he
          · rw [h.manned.kept w here] at aborted
            cases aborted
        | advance p hs next => exact absurd phase (next.phase_ne_effects es)
        | letGo fs reason => rcases reason with ⟨first, -⟩ | ⟨first, -⟩ <;> rw [phase] at first <;> cases first
        | start first | clear first => rw [phase] at first; cases first
        | refused _ _ _ _ _ _ first | finish _ _ _ _ first | store _ _ _ _ first => rw [phase] at first; cases first
        | requeue _ _ first | holdBack _ _ first => rw [phase] at first; cases first
    · have other : ∀ answer, m ≠ .worker w.seq answer := fun answer heq => own ⟨answer, heq⟩
      exact Or.inr ⟨w, (h.others spares hid other).1 here, hid, es, phase, he⟩

/-- In the run `ms` an attempt of the task, that of `w`, ends by the move `m` after `xs`. -/
def Ended (c : Setup) (s : State) (ms : List Move) (id : String) (xs : List Move) (m : Move) (w : Worker) :
    Prop :=
  (∃ ys, ms = xs ++ m :: ys) ∧ w.task.id = id ∧ (s.run c xs).ledger.Ends ((s.run c xs).step c m).ledger w

theorem Ended.append {ms xs : List Move} {m : Move} {w : Worker} (h : s.Ended c ms id xs m w)
    (more : List Move) : s.Ended c (ms ++ more) id xs m w := by
  obtain ⟨⟨ys, rfl⟩, rest⟩ := h
  exact ⟨⟨ys ++ more, by simp⟩, rest⟩

/-- Whoever submits a task has nothing to say of an interruption. -/
theorem submit_quiet (s : State) (x kind : String) (payload : Bytes) (title : String)
    (quiet : ¬(.reported (.interrupted id) ∈ s.ledger.history ∨ s.ledger.Owes (.interrupted id))) :
    let l := (s.submit c x kind payload title).2.ledger
    ¬(.reported (.interrupted id) ∈ l.history ∨ l.Owes (.interrupted id)) := by
  intro l
  show ¬(.reported (.interrupted id) ∈ (s.submit c x kind payload title).2.ledger.history ∨
    (s.submit c x kind payload title).2.ledger.Owes (.interrupted id))
  rcases s.submit_cases (c := c) x kind payload title with ⟨e, disk, -, hs⟩ | ⟨disk, -, hs⟩ <;> rw [hs]
  · exact quiet
  · rintro (reported | ⟨es, hes, he⟩ | worker)
    · refine quiet (Or.inl ?_)
      simpa [ledger] using reported
    · rcases List.mem_append.mp hes with old | new
      · exact quiet (Or.inr (Or.inl ⟨es, old, he⟩))
      · rw [List.mem_singleton.mp new] at he
        cases List.mem_singleton.mp he
    · exact quiet (Or.inr (Or.inr worker))

/-- An interruption has its reason in an attempt that has ended and had been stopped. -/
theorem ended_of_interrupted (disk : Disk) {ms : List Move} (spared : ∀ m ∈ ms, m.spares id = true) :
    let s := State.init c disk
    .reported (.interrupted id) ∈ (s.run c ms).history ∨ (s.run c ms).ledger.Owes (.interrupted id) →
      ∃ xs m w, s.Ended c ms id xs m w ∧ s.feigned c w.seq xs = true := by
  intro s
  induction ms using List.reverseRecOn with
  | nil =>
    rintro (reported | ⟨es, hes, -⟩ | ⟨w, here, -⟩)
    · cases reported
    · cases hes
    · cases here
  | append_singleton ms m ih =>
    intro heard
    have spared' : ∀ n ∈ ms, n.spares id = true := fun n hn => spared n (by simp [hn])
    by_cases before : .reported (.interrupted id) ∈ (s.run c ms).history ∨
        (s.run c ms).ledger.Owes (.interrupted id)
    · obtain ⟨xs, n, w, ended, feint⟩ := ih spared' before
      exact ⟨xs, n, w, ended.append [m], feint⟩
    · rw [run_concat] at heard
      have kept := kept_or_ends (c := c) (s := s.run c ms) (m := m)
        (P := fun l => ¬(.reported (.interrupted id) ∈ l.history ∨ l.Owes (.interrupted id)))
        (Q := fun w => w.task.id = id ∧ w.phase = .leaving)
        (fun quiet act => act.interrupts quiet) ?_ before
      · obtain ⟨w, ⟨hid, phase⟩, ends⟩ := kept.resolve_left (not_not.mpr heard)
        have traced : Traced c (State.init c disk) ms id := .run c disk spared'
        refine ⟨ms, m, w, ⟨⟨[], rfl⟩, hid, ends⟩, ?_⟩
        exact ((traced.trail w ends.1 hid).of_stops (by rw [phase]; rfl)).1
      · exact fun x kind payload title => (s.run c ms).submit_quiet x kind payload title

theorem interrupted_run {xs : List Move} (h : (s.run c xs).Undisturbed id) {ys : List Move}
    (spared : ∀ m ∈ ys, m.spares id = true) (interrupted : (s.run c xs).Interrupted id) :
    (s.run c (xs ++ ys)).Interrupted id := by
  induction ys generalizing xs with
  | nil => simpa using interrupted
  | cons m ys ih =>
    have spares := spared m List.mem_cons_self
    have after := h.interrupted_step (c := c) spares interrupted
    have still := h.step (c := c) spares
    rw [← run_concat] at after still
    have rest := ih still (fun n hn => spared n (List.mem_cons_of_mem m hn)) after
    rwa [List.append_assoc] at rest

/-- Every attempt that ends concludes, or its cancellation was feigned, and then nothing is written. -/
theorem concludes_or_interrupted (disk : Disk) {ms xs : List Move} {m : Move} {w : Worker}
    (spared : ∀ m ∈ ms, m.spares id = true) :
    let s := State.init c disk
    s.Ended c ms id xs m w →
      s.feigned c w.seq xs = false ∧ Concludes (s.run c (xs ++ [m])) w (s.tries c w.seq (xs ++ [m])) ∨
        s.feigned c w.seq xs = true ∧ s.tries c w.seq (xs ++ [m]) = [] ∧ (s.run c ms).Interrupted id := by
  rintro s ⟨⟨ys, rfl⟩, hid, ends⟩
  have traced : Traced c (State.init c disk) xs id := .run c disk fun n hn => spared n (by simp [hn])
  have spares := spared m (by simp)
  have outcome := traced.undisturbed.ends spares ends hid (traced.trail w ends.1 hid)
  rw [← tries_concat, ← run_concat] at outcome
  refine outcome.imp_right fun ⟨feint, untried, interrupted⟩ => ⟨feint, untried, ?_⟩
  have undisturbed := (traced.concat spares).undisturbed
  have rest := interrupted_run undisturbed (fun n (hn : n ∈ ys) => spared n (by simp [hn])) interrupted
  rwa [List.append_assoc] at rest

theorem Tidy.of_append {xs ys : List Move} (run : s.Tidy c (xs ++ ys)) : s.Tidy c xs :=
  ⟨(Follows.append.mp run.new).1, (List.pairwise_append.mp run.once).1⟩

/-- The record of a task that concludes after nothing but successful writes does not go on saying `running`,
whoever else deletes records. -/
theorem not_running_of_concludes {disk : Disk} (keyed : disk.store.Keyed) {xs : List Move} {w : Worker}
    (run : (State.init c disk).Tidy c xs) {tries : List Try}
    (concludes : Concludes ((State.init c disk).run c xs) w tries) (ok : ∀ x ∈ tries, x.2 = .ok ()) :
    ((State.init c disk).run c xs).disk.store.status? w.task.id ≠ some .running := by
  intro stored
  cases concludes with
  | stored e errs kind tried record =>
    rw [record] at stored
    rcases kind with kind | kind <;> rw [kind] at stored <;> cases stored
  | requeued failure left errs tried queued =>
    obtain ⟨kept, keeps, acts⟩ := over_run run (.refl (brought xs) keyed : Store.Keeps _ disk.store _)
    have agrees := (Ledger.Agrees.init c keyed).acts acts
    have pending : kept.status? w.task.id = some .pending :=
      agrees.queued w.task.id (List.mem_map.mpr ⟨_, queued, rfl⟩)
    rw [keeps.status?_eq_some stored] at pending
    cases pending
  | abandoned e errs refused out =>
    obtain ⟨err, herr⟩ := List.exists_mem_of_ne_nil errs out.ne_nil
    cases ok (refusal e err) (refused ▸ List.mem_map_of_mem herr)

/-- Only shutdown interrupts, over every run without a shutdown and without a call of `cancel` for the task,
except for fetchers and storages that call their own failure a cancellation. Every attempt of the task that
ends comes to a conclusion and no interruption is reported, if and only if in no attempt that has ended such a
failure was met. Where one was met, nothing is written, and the interruption is reported or about to be. The task does
not leave the running set otherwise than by the end of an attempt; and after an attempt without such a
failure and without a refused write its record does not say `running`, as long as an id names one task for
good. -/
theorem only_shutdown_interrupts_iff (c : Setup) (disk : Disk) (ms : List Move) (id : String)
    (spared : ∀ m ∈ ms, m.spares id = true) :
    let s := State.init c disk
    ((∀ xs m w, s.Ended c ms id xs m w →
          Concludes (s.run c (xs ++ [m])) w (s.tries c w.seq (xs ++ [m]))) ∧
        .interrupted id ∉ (s.run c ms).events ↔
      ∀ xs m w, s.Ended c ms id xs m w → s.feigned c w.seq xs = false) ∧
    (∀ xs m w, s.Ended c ms id xs m w → s.feigned c w.seq xs = true →
      s.tries c w.seq (xs ++ [m]) = [] ∧ (s.run c ms).Interrupted id) ∧
    ∀ xs m ys, ms = xs ++ m :: ys → id ∈ (s.run c xs).ledger.runningIds →
      id ∉ (s.run c (xs ++ [m])).ledger.runningIds →
      ∃ w, s.Ended c ms id xs m w ∧
        (s.feigned c w.seq xs = false → (∀ x ∈ s.tries c w.seq (xs ++ [m]), x.2 = .ok ()) →
          disk.store.Keyed → s.Tidy c ms →
          (s.run c (xs ++ [m])).disk.store.status? id ≠ some .running) := by
  intro s
  have outcome {xs : List Move} {m : Move} {w : Worker} (ended : s.Ended c ms id xs m w) :=
    concludes_or_interrupted (c := c) disk spared ended
  refine ⟨⟨?_, ?_⟩, ?_, ?_⟩
  · rintro ⟨concludes, -⟩ xs m w ended
    rcases outcome ended with ⟨genuine, -⟩ | ⟨-, untried, -⟩
    · exact genuine
    · exact absurd untried (concludes xs m w ended).tries_ne_nil
  · intro genuine
    refine ⟨fun xs m w ended => ?_, fun reported => ?_⟩
    · rcases outcome ended with ⟨-, concludes⟩ | ⟨feint, -⟩
      · exact concludes
      · rw [genuine xs m w ended] at feint
        cases feint
    · obtain ⟨xs, m, w, ended, feint⟩ :=
        ended_of_interrupted (c := c) disk spared (Or.inl (mem_events.mp reported))
      rw [genuine xs m w ended] at feint
      cases feint
  · intro xs m w ended feint
    rcases outcome ended with ⟨genuine, -⟩ | ⟨-, interrupted⟩
    · rw [genuine] at feint
      cases feint
    · exact interrupted
  · rintro xs m ys rfl running gone
    rw [run_concat] at gone
    have left := (kept_or_ends (c := c) (s := s.run c xs) (m := m) (P := fun l => id ∈ l.runningIds)
      (Q := fun w => w.task.id = id) (fun running act => act.running_or_ends running)
      (fun x kind payload title running => ?_) running).resolve_left gone
    · obtain ⟨w, hid, ends⟩ := left
      have ended : s.Ended c (xs ++ m :: ys) id xs m w := ⟨⟨ys, rfl⟩, hid, ends⟩
      refine ⟨w, ended, fun genuine ok keyed run => ?_⟩
      rcases outcome ended with ⟨-, concludes⟩ | ⟨feint, -⟩
      · have split : s.Tidy c ((xs ++ [m]) ++ ys) := by simpa using run
        exact hid ▸ not_running_of_concludes keyed split.of_append concludes ok
      · rw [genuine] at feint
        cases feint
    · show id ∈ List.map Running.id ((s.run c xs).submit c x kind payload title).2.running
      rw [((s.run c xs).staff_submit x kind payload title).2]
      exact running

/-- A fetcher calls its failure a cancellation. -/
def feignedRun : List Move :=
  [.submit "a" "mem" (Transfer.encode ⟨"a", "out/a"⟩) "film", .start, .loop .go, .loop .permit, .loop .go,
    .loop .go, .worker 0 .go, .worker 0 .go, .worker 0 (.fetched (.error ⟨.cancelled, "why"⟩)), .worker 0 .go,
    .worker 0 .go, .worker 0 .go, .worker 0 .go]

/-- Then there is an attempt that ends after a feint. -/
theorem only_shutdown_interrupts_feigned :
    (∀ m ∈ feignedRun, m.spares "a" = true) ∧
      ¬∀ xs m w, (State.init (Setup.small 1) {}).Ended (Setup.small 1) feignedRun "a" xs m w →
        (State.init (Setup.small 1) {}).feigned (Setup.small 1) w.seq xs = false := by
  have spared : ∀ m ∈ feignedRun, m.spares "a" = true := by decide +kernel
  refine ⟨spared, fun genuine => ?_⟩
  exact ((only_shutdown_interrupts_iff (Setup.small 1) {} feignedRun "a" spared).1.mpr genuine).2
    (by decide +kernel)

/-- Nobody asks for a shutdown or a cancellation, the store refuses nothing, and yet the task is reported
as interrupted, is no longer running, and its record says `running`. -/
theorem interrupted_without_shutdown :
    let s := (State.init (Setup.small 1) {}).run (Setup.small 1) feignedRun
    (∀ m ∈ feignedRun, m.spares "a" = true) ∧ s.shutdown = false ∧ s.disk.outages = [] ∧
      .interrupted "a" ∈ s.events ∧ s.ledger.runningIds = [] ∧ s.ledger.queuedIds = [] ∧
      s.disk.store.status? "a" = some .running := by
  refine ⟨by decide +kernel, ?_⟩
  decide +kernel

end State

end Courier.Scheduler
