/-
# Courier.Proofs.Scheduler.Precedence -- queued, reported, started

A task gets into the queue by a submission, by a worker that brings it back, or by a recovery, and each of
them has an event of its own to say so. A submission and a worker report before they leave the lock, so that
the event is there when the task can be claimed. A recovery reports when it has left the lock: the loop may
have claimed what it has queued, and the worker may have reported its start, before the recovery gets round
to its own report. And a recovery that fails never does.

`State.LastEntry` is the entry into the queue that a claim has taken, found by going back through the run
(`State.Rooted`). `State.starts_after_report_iff` says of every start in every run which entry that is, and
exactly when the entry was reported before the start.
-/
import Courier.Proofs.Scheduler.Callers
import Courier.Proofs.Scheduler.Order
import Courier.Proofs.Scheduler.Outcomes

namespace Courier

/-- The task that an event reports as queued. -/
def Event.queues? : Event → Option String
  | .submitted id .. | .recovered id _ | .retryScheduled id .. => some id
  | _ => none

namespace Scheduler

variable {c : Setup} {E : Edits} {l l' : Ledger}

/-- The task that enters the queue. -/
def Happening.entry? : Happening → Option String
  | .enqueued id => some id
  | _ => none

/-- The task that is to be reported as recovered. -/
def Effect.recovers? : Effect → Option String
  | .report (.recovered id _) => some id
  | _ => none

/-! ## Acts -/

/-- Nothing gets into the queue unnoticed. -/
theorem Act.queued_cases (act : Act c E l l') {id : String} (queued : id ∈ l'.queuedIds) :
    id ∈ l.queuedIds ∨ ∃ hs, l'.history = hs ++ l.history ∧ .enqueued id ∈ hs := by
  have enters {t : Queued} (hs : List Happening) (queue : l'.queue = l.queue ++ [t])
      (history : l'.history = hs ++ l.history) (noted : .enqueued t.id ∈ hs) :
      id ∈ l.queuedIds ∨ ∃ hs, l'.history = hs ++ l.history ∧ .enqueued id ∈ hs := by
    rw [Ledger.queuedIds, queue] at queued
    rcases Ledger.mem_ids_append.mp queued with old | rfl
    · exact Or.inl old
    · exact Or.inr ⟨hs, history, noted⟩
  cases act with
  | submit r => exact enters [_, _, _] rfl rfl (by simp [Queued.ofRecord])
  | takePending r => exact enters [_] rfl rfl List.mem_cons_self
  | takeRunning r => exact enters [_, _] rfl rfl List.mem_cons_self
  | requeue w => exact enters [_, _, _] rfl rfl List.mem_cons_self
  | withdraw x => exact Or.inl ((List.eraseP_sublist.map Queued.id).subset queued)
  | claim task rest store head =>
    left
    rw [Ledger.queuedIds, head]
    exact List.mem_cons_of_mem task.id queued
  | _ => exact Or.inl queued

theorem Acts.queued_cases (acts : Acts c E l l') {id : String} (queued : id ∈ l'.queuedIds) :
    id ∈ l.queuedIds ∨ ∃ hs, l'.history = hs ++ l.history ∧ .enqueued id ∈ hs := by
  induction acts with
  | refl => exact Or.inl queued
  | tail before act ih =>
    obtain ⟨old, past⟩ := Acts.history before
    rcases act.queued_cases queued with still | ⟨new, history, noted⟩
    · obtain ⟨new, history⟩ := act.history
      rcases ih still with first | ⟨hs, past, noted⟩
      · exact Or.inl first
      · exact Or.inr ⟨new ++ hs, by rw [history, past, List.append_assoc], List.mem_append_right new noted⟩
    · exact Or.inr ⟨new ++ old, by rw [history, past, List.append_assoc], List.mem_append_left old noted⟩

theorem Next.phase_ne_claimed {w : Worker} {p : Phase} {hs : List Happening} (next : Next c l w p hs) :
    p ≠ .claimed := by
  cases next with
  | judge t result phase =>
    rcases storedPhase_cases (c.kinds.get? w.task.kind) w.told t result with h | h | ⟨-, h⟩ <;> rw [h] <;>
      nofun
  | settle result millis phase =>
    rcases endedPhase_cases w.told w.task.remaining millis result with
      h | ⟨bytes, -, -, h⟩ | ⟨failure, -, -, ⟨left, -, h⟩ | ⟨-, h⟩⟩ <;> rw [h] <;> nofun
  | givenUp e attempt phase => cases e <;> nofun
  | _ => nofun

/-- A worker that has not reported its start is as it was, or has just claimed a task from the queue. -/
theorem Ledger.Numbered.claimed_cases (h : l.Numbered) (act : Act c E l l') {v : Worker}
    (hv : v ∈ l'.workers) (phase : v.phase = .claimed) :
    (∃ w ∈ l.workers, w.task = v.task ∧ w.phase = .claimed) ∨ v.task.id ∈ l.queuedIds ∧
      ∃ hs, l'.history = hs ++ l.history ∧ .claimed v.task.id v.task.attempts ∈ hs := by
  have unclaimed (next : l'.nextSeq = l.nextSeq) : ∃ w ∈ l.workers, w.task = v.task ∧ w.phase = .claimed := by
    cases h.origin act hv with
    | same w heir same => exact ⟨w, heir.here, heir.task, same.trans phase⟩
    | claimed seq =>
      have below := (h.step act).seqs_lt v hv
      rw [seq, next] at below
      exact absurd below (Nat.lt_irrefl _)
    | moved w heir hs next => exact absurd phase next.phase_ne_claimed
    | started w heir was after =>
      rcases after with ⟨_, after⟩ | ⟨_, after⟩ <;> rw [phase] at after <;> cases after
    | handedBack w heir failure remaining attempt was after | heldBack w heir was after
    | lateStored w heir was after | ended w heir es after =>
      rw [phase] at after
      cases after
  cases act with
  | claim task rest store head =>
    rcases List.mem_append.mp hv with old | new
    · exact Or.inl ⟨v, old, rfl, phase⟩
    · rw [List.mem_singleton.mp new]
      refine Or.inr ⟨?_, [_, _], rfl, List.mem_cons_self⟩
      rw [queuedIds, head]
      exact List.mem_cons_self
  | _ => exact Or.inl (unclaimed rfl)

/-- The start of an attempt is reported by the worker that has claimed the task. -/
theorem Act.started (act : Act c E l l') (accountable : l.Accountable) (id : String) (n : Nat) :
    ∃ hs, l'.history = hs ++ l.history ∧ (.reported (.started id n) ∈ hs →
      ∃ w ∈ l.workers, w.phase = .claimed ∧ w.task.id = id ∧ w.task.attempts = n) := by
  cases act with
  | start w now here phase =>
    refine ⟨[_], rfl, fun started => ⟨w, here, phase, ?_⟩⟩
    cases List.mem_singleton.mp started
    exact ⟨rfl, rfl⟩
  | callEffect call e es next =>
    have may := accountable.calls _ (List.mem_of_getElem? next) e List.mem_cons_self
    refine ⟨e.happenings, rfl, fun started => ?_⟩
    rw [State.reported_mem_happenings.mp started] at may
    cases may
  | workerEffect w e es here phase =>
    have outcome := accountable.outcomes w here _ phase
    refine ⟨e.happenings, rfl, fun started => ?_⟩
    rw [State.reported_mem_happenings.mp started] at outcome
    cases outcome
  | advance w p hs here next => exact ⟨hs, rfl, fun started => by cases next <;> simp at started⟩
  | submit | withdraw | requeue => exact ⟨[_, _, _], rfl, by simp⟩
  | takeRunning | claim | finish | letGo => exact ⟨[_, _], rfl, by simp⟩
  | tell | retell | storeCancel | takePending | handBack | lateStore | holdBack =>
    exact ⟨[_], rfl, by simp⟩
  | _ => exact ⟨[], rfl, by simp⟩

/-! ## Recoveries -/

namespace Happening

theorem arrivals_of_gathers {hs : List Happening} (gathers : ∀ x ∈ hs, x.gathers = true)
    (past : List Happening) : arrivals (hs ++ past) = hs.filterMap entry? ++ arrivals past := by
  induction hs with
  | nil => rfl
  | cons x hs ih =>
    have hx := gathers x List.mem_cons_self
    have rest := ih fun y hy => gathers y (List.mem_cons_of_mem x hy)
    cases x with
    | enqueued id => exact congrArg (id :: ·) rest
    | wrote => exact rest
    | _ => cases hx

theorem claims_of_gathers {hs : List Happening} (gathers : ∀ x ∈ hs, x.gathers = true) :
    hs.filterMap claim? = [] := by
  rw [List.filterMap_eq_nil_iff]
  intro x hx
  have := gathers x hx
  cases x <;> first | rfl | cases this

theorem mem_entries {hs : List Happening} {id : String} : id ∈ hs.filterMap entry? ↔ .enqueued id ∈ hs := by
  rw [List.mem_filterMap]
  constructor
  · rintro ⟨x, hx, hid⟩
    cases x <;> cases hid
    exact hx
  · exact fun h => ⟨_, h, rfl⟩

end Happening

theorem Effect.mem_recovers {es : List Effect} {id : String} :
    id ∈ es.filterMap recovers? ↔ ∃ status, .report (.recovered id status) ∈ es := by
  rw [List.mem_filterMap]
  constructor
  · rintro ⟨e, he, hid⟩
    unfold recovers? at hid
    split at hid
    · cases hid
      exact ⟨_, he⟩
    · cases hid
  · rintro ⟨status, he⟩
    exact ⟨_, he, rfl⟩

theorem State.Recovery.recovers_effects (taken : List Record) (settled : List String) :
    (({} : Recovery).add taken settled).effects.filterMap Effect.recovers? = taken.map Record.id := by
  have cancels : (settled.map fun id => Effect.report (.cancelled id)).filterMap Effect.recovers? = [] := by
    rw [List.filterMap_map, List.filterMap_eq_nil_iff]
    exact fun _ _ => rfl
  have recovers : (taken.map fun r => Effect.report (.recovered r.id r.status)).filterMap Effect.recovers? =
      taken.map Record.id := by
    rw [List.filterMap_map]
    exact congrFun List.filterMap_eq_map' taken
  simp [Recovery.effects, Recovery.add, cancels, recovers, Function.comp_def, Effect.recovers?]

namespace State

variable {s : State}

/-- A recovery queues tasks without reporting anything, and if it succeeds it leaves the lock with the
reports of these tasks. -/
theorem recover_entries (owned : s.ledger.Owned) (ordered : s.ledger.Ordered) :
    ∃ ids : List String, ids.Nodup ∧ (∀ id, .enqueued id ∈ s.news c .recover ↔ id ∈ ids) ∧
      (s.step c .recover).ledger.queuedIds = s.ledger.queuedIds ++ ids ∧
      (∀ e, .reported e ∉ s.news c .recover) ∧
      ((s.recover c).1.isOk = true → ∃ es, (s.step c .recover).calls = s.calls ++ [es] ∧
        es.filterMap Effect.recovers? = ids) := by
  obtain ⟨t, taken, settled, -, gathered, outcome⟩ := s.recover_gathers (c := c)
  obtain ⟨hs, history, gathers, -⟩ := gathered.history
  obtain ⟨calls, ht⟩ : ∃ calls, s.step c .recover = { t with calls } :=
    outcome.elim (fun ok => ⟨_, ok.2⟩) fun refused => ⟨t.calls, refused.2⟩
  have acts : Acts c .any s.ledger (s.step c .recover).ledger := s.recover_acts.acts
  have news : s.news c .recover = hs := news_eq (by rw [ht]; exact history)
  have queued : (s.step c .recover).ledger.queuedIds = s.ledger.queuedIds ++ taken.map Record.id := by
    show (s.step c .recover).queue.map Queued.id = _
    rw [ht, gathered.queue, List.map_append, List.map_map]
    rfl
  -- The log has grown by what is new in the queue.
  have entries : hs.filterMap Happening.entry? = (taken.map Record.id).reverse := by
    have after : Happening.arrivals (s.step c .recover).history = _ := (ordered.acts owned acts).log
    have before : Happening.arrivals s.history = s.ledger.queuedIds.reverse ++ s.ledger.claims := ordered.log
    have claims : (s.step c .recover).ledger.claims = s.ledger.claims := by
      show (s.step c .recover).history.filterMap _ = s.history.filterMap _
      rw [ht, history, List.filterMap_append, Happening.claims_of_gathers gathers]
      rfl
    rw [claims, queued, ht, history, Happening.arrivals_of_gathers gathers, before, List.reverse_append,
      List.append_assoc] at after
    exact List.append_cancel_right after
  refine ⟨taken.map Record.id, ?_, fun id => ?_, queued, fun e reported => ?_, fun ok => ?_⟩
  · have nodup := (owned.acts acts).queuedIds_nodup
    rw [queued] at nodup
    exact (List.nodup_append.mp nodup).2.1
  · rw [news, ← Happening.mem_entries, entries, List.mem_reverse]
  · rw [news] at reported
    exact Bool.false_ne_true (gathers _ reported)
  · rcases outcome with ⟨-, leaves⟩ | ⟨⟨e, failed⟩, -⟩
    · exact ⟨_, congrArg State.calls leaves, Recovery.recovers_effects taken settled⟩
    · rw [failed] at ok
      cases ok

/-! ## Moves -/

theorem queued_step {m : Move} (fresh : m.Fresh s) {id : String}
    (queued : id ∈ (s.step c m).ledger.queuedIds) :
    id ∈ s.ledger.queuedIds ∨ .enqueued id ∈ s.news c m := by
  refine (step_acts (act_of_fresh fresh)).queued_cases queued |>.imp_right ?_
  rintro ⟨hs, history, noted⟩
  exact news_eq history ▸ noted

/-- What a move brings into the queue stays there until the next move. -/
theorem queued_of_enqueued (owned : s.ledger.Owned) (ordered : s.ledger.Ordered) {m : Move}
    (fresh : m.Fresh s) {id : String} (entered : .enqueued id ∈ s.news c m) :
    id ∈ (s.step c m).ledger.queuedIds := by
  rcases act_of_fresh (c := c) fresh with rfl | act
  · obtain ⟨ids, -, entries, queued, -⟩ := recover_entries (c := c) owned ordered
    rw [queued]
    exact List.mem_append_right _ ((entries id).mp entered)
  · rcases (Relation.reflGen_iff _ _ _).mp act with same | act
    · have none : s.news c m = [] := news_eq (congrArg Ledger.history same)
      rw [none] at entered
      cases entered
    · obtain ⟨hs, history, noted⟩ := act.noted
      rw [news_eq history] at entered
      cases noted _ entered with
      | enqueued id after => exact after
      | outward x out => cases out

theorem claimed_worker_step (numbered : s.ledger.Numbered) {m : Move} (fresh : m.Fresh s) {v : Worker}
    (hv : v ∈ (s.step c m).workers) (phase : v.phase = .claimed) :
    (∃ w ∈ s.workers, w.task = v.task ∧ w.phase = .claimed) ∨
      v.task.id ∈ s.ledger.queuedIds ∧ .claimed v.task.id v.task.attempts ∈ s.news c m := by
  rcases act_of_fresh (c := c) fresh with rfl | act
  · rw [step, (staff_eq_iff.mp s.staff_recover).1] at hv
    exact Or.inl ⟨v, hv, rfl, phase⟩
  · rcases (Relation.reflGen_iff _ _ _).mp act with same | act
    · have workers : (s.step c m).workers = s.workers := congrArg Ledger.workers same
      exact Or.inl ⟨v, workers ▸ hv, rfl, phase⟩
    · refine (numbered.claimed_cases act hv phase).imp_right ?_
      rintro ⟨queued, hs, history, noted⟩
      exact ⟨queued, news_eq history ▸ noted⟩

theorem started_step (accountable : s.ledger.Accountable) {m : Move} (fresh : m.Fresh s) {id : String}
    {n : Nat} (started : .reported (.started id n) ∈ s.news c m) :
    ∃ w ∈ s.workers, w.phase = .claimed ∧ w.task.id = id ∧ w.task.attempts = n := by
  rcases act_of_fresh (c := c) fresh with rfl | act
  · obtain ⟨-, hs, -, -, -, history, gathers⟩ := s.recover_adds (c := c)
    rw [news_eq (m := .recover) history] at started
    exact absurd (gathers _ started) nofun
  · rcases (Relation.reflGen_iff _ _ _).mp act with same | act
    · have none : s.news c m = [] := news_eq (congrArg Ledger.history same)
      rw [none] at started
      cases started
    · obtain ⟨hs, history, claimed⟩ := act.started accountable id n
      rw [news_eq history] at started
      exact claimed started

/-- A worker that brings its task back says so. -/
theorem Worked.entered {t : State} {w : Worker} {answer : Answer} (worked : Worked c s w answer t)
    (id : String) : ∃ hs, t.history = hs ++ s.history ∧
      (.enqueued id ∈ hs → ∃ e, e.queues? = some id ∧ .reported e ∈ hs) := by
  have outward {hs : List Happening} (out : ∀ x ∈ hs, x.outward = true) :
      .enqueued id ∈ hs → ∃ e, e.queues? = some id ∧ .reported e ∈ hs :=
    fun entered => absurd (out _ entered) nofun
  cases worked with
  | requeue failure remaining =>
    refine ⟨[_, _, _], rfl, fun entered => ⟨.retryScheduled w.task.id remaining failure, ?_, by simp⟩⟩
    simp at entered
    rw [entered]
    rfl
  | advance p hs next => exact ⟨hs, rfl, outward next.outward⟩
  | effect e es => exact ⟨e.happenings, s.history_perform e, outward e.outward_happenings⟩
  | start | store => exact ⟨[_], rfl, by simp⟩
  | finish | letGo => exact ⟨[_, _], rfl, by simp⟩
  | holdBack => exact ⟨[_], rfl, by simp⟩
  | _ => exact ⟨[], rfl, by simp⟩

/-- A submission and a worker report what they bring into the queue. -/
theorem enqueued_step (s : State) (m : Move) {id : String} (entered : .enqueued id ∈ s.news c m) :
    m = .recover ∨ ∃ e, e.queues? = some id ∧ .reported e ∈ s.news c m := by
  have never (hs : List Happening) (history : (s.step c m).history = hs ++ s.history)
      (none : .enqueued id ∉ hs) : m = .recover ∨ ∃ e, e.queues? = some id ∧ .reported e ∈ s.news c m := by
    rw [news_eq history] at entered
    exact absurd entered none
  have both {x : String} {e : Event} (hs : List Happening) (history : (s.step c m).history = hs ++ s.history)
      (only : .enqueued id ∈ hs → id = x) (queues : e.queues? = some x) (reported : .reported e ∈ hs) :
      m = .recover ∨ ∃ e, e.queues? = some id ∧ .reported e ∈ s.news c m := by
    rw [news_eq history] at entered ⊢
    exact Or.inr ⟨e, only entered ▸ queues, reported⟩
  cases m with
  | recover => exact Or.inl rfl
  | submit x kind payload title =>
    rcases s.submit_cases (c := c) x kind payload title with ⟨e, disk, -, h⟩ | ⟨disk, -, h⟩
    · exact never [] (by rw [step, h]; rfl) (by simp)
    · exact both (x := x) (e := .submitted x kind title) [_, _, _] (by rw [step, h]; rfl) (by simp) rfl
        List.mem_cons_self
  | cancel x =>
    rcases s.cancel_cases x with ⟨e, disk, -, h⟩ | ⟨disk, -, -, h⟩ | ⟨r, -, -, h⟩
    · exact never [] (by rw [step, h]; rfl) (by simp)
    · exact never [_, _, _] (by rw [step, h]; rfl) (by simp)
    · refine never [.accepted x] ?_ (by simp)
      rw [step, h]
      rcases s.tellRunning_cases r with ⟨-, ht⟩ | ⟨-, ht⟩ <;> rw [ht] <;> rfl
  | resume call =>
    obtain ⟨hs, history, outward⟩ := s.resume_history call
    exact never hs history fun new => Bool.false_ne_true (outward _ new)
  | loop turn =>
    rcases s.stepLoop_history turn with same | ⟨x, attempt, history⟩
    · exact never [] same (by simp)
    · exact never [_, _] history (by simp)
  | worker seq answer =>
    rcases s.stepWorker_cases (c := c) seq answer with same | ⟨w, -, -, worked⟩
    · exact never [] (congrArg State.history same) (by simp)
    · obtain ⟨hs, history, reports⟩ := worked.entered id
      rw [news_eq (m := .worker seq answer) history] at entered ⊢
      exact Or.inr (reports entered)
  | start =>
    refine never [] ?_ (by simp)
    simp only [step, start]
    split <;> rfl
  | link link =>
    refine never [] ?_ (by simp)
    simp only [step, setLink]
    split <;> rfl
  | putRecord r =>
    refine never [] ?_ (by simp)
    simp only [step]
    split <;> rfl
  | shutdown | unwatch | clock _ | outage _ _ | heal | deleteRecord _ => exact never [] rfl (by simp)

/-! ## Entries -/

/-- After the run `us` the move `q` brings the task into the queue, and in the moves `vs` after that nothing
does so again. -/
structure LastEntry (c : Setup) (s : State) (id : String) (us : List Move) (q : Move) (vs : List Move) :
    Prop where
  enters : .enqueued id ∈ (s.run c us).news c q
  last : ∀ xs m ys, vs = xs ++ m :: ys → .enqueued id ∉ (s.run c (us ++ q :: xs)).news c m

/-- In the moves `vs`, made after `us` and `q`, the task is claimed for its `n`-th attempt. -/
def ClaimedSince (c : Setup) (s : State) (id : String) (n : Nat) (us : List Move) (q : Move)
    (vs : List Move) : Prop :=
  ∃ xs p ys, vs = xs ++ p :: ys ∧ .claimed id n ∈ (s.run c (us ++ q :: xs)).news c p

theorem LastEntry.concat {id : String} {us vs : List Move} {q m : Move} (h : s.LastEntry c id us q vs)
    (none : .enqueued id ∉ (s.run c (us ++ q :: vs)).news c m) : s.LastEntry c id us q (vs ++ [m]) := by
  refine ⟨h.enters, fun xs p ys split => ?_⟩
  rcases split_concat split with ⟨rfl, rfl⟩ | ⟨zs, rfl⟩
  · exact none
  · exact h.last xs p zs rfl

/-- Every task in the queue, and every worker that has not reported its start, goes back to an entry. -/
structure Rooted (c : Setup) (s : State) (ms : List Move) : Prop where
  queued : ∀ id ∈ (s.run c ms).ledger.queuedIds,
    ∃ us q vs, ms = us ++ q :: vs ∧ s.LastEntry c id us q vs
  claimed : ∀ w ∈ (s.run c ms).workers, w.phase = .claimed →
    ∃ us q vs, ms = us ++ q :: vs ∧ s.LastEntry c w.task.id us q vs ∧
      s.ClaimedSince c w.task.id w.task.attempts us q vs

theorem Rooted.concat {ms : List Move} {m : Move} (h : s.Rooted c ms)
    (owned : (s.run c ms).ledger.Owned) (ordered : (s.run c ms).ledger.Ordered)
    (fresh : m.Fresh (s.run c ms)) : s.Rooted c (ms ++ [m]) := by
  have acts : Acts c .any (s.run c ms).ledger ((s.run c ms).step c m).ledger :=
    step_acts (act_of_fresh fresh)
  have after := owned.acts acts
  refine ⟨fun id queued => ?_, fun v hv phase => ?_⟩
  · rw [run_concat] at queued
    by_cases entered : .enqueued id ∈ (s.run c ms).news c m
    · exact ⟨ms, m, [], rfl, entered, by simp⟩
    · obtain ⟨us, q, vs, rfl, entry⟩ := h.queued id ((queued_step fresh queued).resolve_right entered)
      exact ⟨us, q, vs ++ [m], by simp, entry.concat entered⟩
  · rw [run_concat] at hv
    -- A worker between claim and release keeps its task out of the queue.
    have notEntered : .enqueued v.task.id ∉ (s.run c ms).news c m := fun entered =>
      after.queued_disjoint_running (queued_of_enqueued owned ordered fresh entered)
        (after.mem_runningIds hv (by rw [phase]; rfl))
    rcases claimed_worker_step owned.numbered fresh hv phase with ⟨w, hw, task, before⟩ | ⟨queued, claimed⟩
    · obtain ⟨us, q, vs, rfl, entry, xs, p, ys, rfl, claimed⟩ := h.claimed w hw before
      rw [task] at entry claimed
      exact ⟨us, q, _, by simp, entry.concat notEntered, xs, p, ys ++ [m], by simp, claimed⟩
    · obtain ⟨us, q, vs, rfl, entry⟩ := h.queued v.task.id queued
      exact ⟨us, q, vs ++ [m], by simp, entry.concat notEntered, vs, m, [], rfl, claimed⟩

theorem rooted_of_fresh {disk : Disk} {ms : List Move}
    (run : (State.init c disk).Follows c Move.Fresh ms) : (State.init c disk).Rooted c ms := by
  induction ms using List.reverseRecOn with
  | nil =>
    exact ⟨fun _ queued => absurd queued List.not_mem_nil, fun _ hw => absurd hw List.not_mem_nil⟩
  | append_singleton ms m ih =>
    obtain ⟨before, fresh, -⟩ := Follows.append.mp run
    exact (ih before).concat ((Ledger.Owned.init c disk).acts (run_acts_of_fresh before))
      (ordered_of_fresh before) fresh

/-! ## Reports of entries -/

/-- The move `q` brings the task into the queue, and this is reported with the move itself, or in the run
after it by the recovery that made it. -/
def EntryReported (c : Setup) (s : State) (id : String) (q : Move) (vs : List Move) : Prop :=
  (∃ e, e.queues? = some id ∧ .reported e ∈ s.news c q) ∨
    q = .recover ∧ (s.recover c).1.isOk = true ∧
      ∃ status, (s.step c q).Reports c s.calls.length vs (.recovered id status)

theorem mem_history_of_news {us vs : List Move} {q : Move} {x : Happening}
    (noted : x ∈ (s.run c us).news c q) : x ∈ (s.run c (us ++ q :: vs)).history := by
  obtain ⟨hs, history⟩ := history_run (c := c) ((s.run c us).step c q) vs
  have run : s.run c (us ++ q :: vs) = ((s.run c us).step c q).run c vs := run_append c s us (q :: vs)
  rw [run, history, history_news]
  exact List.mem_append_right hs (List.mem_append_left _ noted)

/-- What is reported of an entry has reached the sink. -/
theorem EntryReported.mem_events {id : String} {us vs : List Move} {q : Move}
    (h : (s.run c us).EntryReported c id q vs) :
    ∃ e, e.queues? = some id ∧ e ∈ (s.run c (us ++ q :: vs)).events := by
  rcases h with ⟨e, queues, reported⟩ | ⟨-, -, status, xs, call, ys, rfl, -, reported⟩
  · exact ⟨e, queues, State.mem_events.mpr (mem_history_of_news reported)⟩
  · refine ⟨.recovered id status, rfl, State.mem_events.mpr ?_⟩
    rw [← run_concat, ← run_append] at reported
    have noted : .reported (.recovered id status) ∈
        (s.run c ((us ++ [q] ++ xs) ++ .resume call :: ys)).history := mem_history_of_news reported
    simpa using noted

/-- An entry is reported, unless it was made by a recovery that has failed, or that has not come to the
report yet. -/
theorem entryReported_iff (owned : s.ledger.Owned) (ordered : s.ledger.Ordered) {id : String} {q : Move}
    (entered : .enqueued id ∈ s.news c q) (vs : List Move) :
    s.EntryReported c id q vs ↔ ¬(q = .recover ∧ ((s.recover c).1.isOk = false ∨
      ∃ status, (s.step c q).StillOwes c s.calls.length vs (.recovered id status))) := by
  rcases s.enqueued_step q entered with rfl | atOnce
  · obtain ⟨ids, nodup, entries, -, silent, returns⟩ := recover_entries (c := c) owned ordered
    have late : s.EntryReported c id .recover vs ↔ (s.recover c).1.isOk = true ∧
        ∃ status, (s.step c .recover).Reports c s.calls.length vs (.recovered id status) := by
      refine (or_iff_right ?_).trans (and_iff_right rfl)
      rintro ⟨e, -, reported⟩
      exact silent e reported
    rw [late, and_iff_right rfl, not_or, Bool.not_eq_false]
    refine and_congr_right fun ok => ?_
    obtain ⟨es, calls, recovers⟩ := returns ok
    have here : (s.step c .recover).calls[s.calls.length]? = some es := by
      rw [calls, List.getElem?_concat_length]
    obtain ⟨done, left, rfl, reports, owes⟩ := course (c := c) here vs
    simp only [reports, owes, ← Effect.mem_recovers]
    -- The account names the task once, and its report has been made or has not.
    have once : (done.filterMap Effect.recovers? ++ left.filterMap Effect.recovers?).Nodup := by
      rw [← List.filterMap_append, recovers]
      exact nodup
    have somewhere : id ∈ done.filterMap Effect.recovers? ∨ id ∈ left.filterMap Effect.recovers? := by
      rw [← List.mem_append, ← List.filterMap_append, recovers]
      exact (entries id).mp entered
    exact ⟨fun before after => List.disjoint_of_nodup_append once before after, somewhere.resolve_right⟩
  · refine iff_of_true (Or.inl atOnce) ?_
    rintro ⟨rfl, -⟩
    obtain ⟨-, -, -, -, silent, -⟩ := recover_entries (c := c) owned ordered
    obtain ⟨e, -, reported⟩ := atOnce
    exact silent e reported

/-- Over every run with fresh submissions: the report of a start goes back to a claim, and the claim to the
last entry of the task into the queue, made by the move `q` after the run `us`. The event of this entry was
in the sink before the start, except in two cases. The entry was made by a recovery that failed, and then
nobody reports it; or by one that had left the lock when the start was reported and had not come to the
report yet. So all that is submitted or brought back by a worker is reported before it is started. -/
theorem starts_after_report_iff (c : Setup) (disk : Disk) (ms : List Move)
    (run : (State.init c disk).Follows c Move.Fresh ms) :
    let s := State.init c disk
    ∀ xs m ys, ms = xs ++ m :: ys → ∀ id n, .reported (.started id n) ∈ (s.run c xs).news c m →
      ∃ us q vs, xs = us ++ q :: vs ∧ s.LastEntry c id us q vs ∧ s.ClaimedSince c id n us q vs ∧
        let t := s.run c us
        (t.EntryReported c id q vs → ∃ e, e.queues? = some id ∧ e ∈ (s.run c xs).events) ∧
          (t.EntryReported c id q vs ↔ ¬(q = .recover ∧ ((t.recover c).1.isOk = false ∨
            ∃ status, (t.step c q).StillOwes c t.calls.length vs (.recovered id status)))) := by
  rintro s xs m ys rfl id n started
  obtain ⟨before, fresh, -⟩ := Follows.append.mp run
  have acts : Acts c .any s.ledger (s.run c xs).ledger := run_acts_of_fresh before
  have accountable : (s.run c xs).ledger.Accountable := (Ledger.Accountable.init c disk).acts (.init c disk) acts
  obtain ⟨w, hw, phase, rfl, rfl⟩ := started_step accountable fresh started
  obtain ⟨us, q, vs, rfl, entry, claimed⟩ := (rooted_of_fresh before).claimed w hw phase
  obtain ⟨first, -⟩ := Follows.append.mp before
  have owned : (s.run c us).ledger.Owned := (Ledger.Owned.init c disk).acts (run_acts_of_fresh first)
  exact ⟨us, q, vs, rfl, entry, claimed, EntryReported.mem_events,
    entryReported_iff owned (ordered_of_fresh first) entry.enters vs⟩

/-- A task is submitted, its first attempt fails, and it is claimed again. -/
def secondAttemptRun : List Move :=
  [.submit "a" "mem" (Transfer.encode ⟨"a", "out/a"⟩) "film", .start, .loop .go, .loop .permit, .loop .go,
    .loop .go, .worker 0 .go, .worker 0 .go, .worker 0 (.fetched (.error ⟨.network, "down"⟩)), .worker 0 .go,
    .worker 0 .go, .worker 0 .go, .worker 0 .go, .worker 0 .go, .loop .go, .loop .permit, .loop .go,
    .loop .go]

/-- When the second attempt starts, its retry has been reported. -/
theorem starts_after_report_retried :
    (State.init (Setup.small 1) {}).Follows (Setup.small 1) Move.Fresh (secondAttemptRun ++ [.worker 1 .go]) ∧
      ∃ us q vs, secondAttemptRun = us ++ q :: vs ∧
        ((State.init (Setup.small 1) {}).run (Setup.small 1) us).EntryReported (Setup.small 1) "a" q vs := by
  have run : (State.init (Setup.small 1) {}).Follows (Setup.small 1) Move.Fresh
      (secondAttemptRun ++ [.worker 1 .go]) := by decide +kernel
  have started : .reported (.started "a" 2) ∈
      ((State.init (Setup.small 1) {}).run (Setup.small 1) secondAttemptRun).news (Setup.small 1)
        (.worker 1 .go) := by decide +kernel
  have nobody : ∀ m ∈ secondAttemptRun, m ≠ .recover := by simp [secondAttemptRun]
  obtain ⟨us, q, vs, split, -, -, -, reported⟩ :=
    starts_after_report_iff (Setup.small 1) {} _ run secondAttemptRun _ [] rfl "a" 2 started
  refine ⟨run, us, q, vs, split, reported.mpr ?_⟩
  rintro ⟨rfl, -⟩
  exact nobody .recover (split ▸ by simp) rfl

/-- A pending task, and a younger one that was running. -/
def leftOver : List Record :=
  [.new "a" "mem" (Transfer.encode ⟨"a", "out/a"⟩) "film" 1,
    { Record.new "b" "mem" [] "song" 2 with status := .running }]

/-- The loop claims a task, and the worker reports its start. -/
def startingRun : List Move :=
  [.start, .loop .go, .loop .permit, .loop .go, .loop .go, .worker 0 .go]

/-- The store has both tasks and will refuse one write of `pending`. -/
def refusingRun : List Move := leftOver.map .putRecord ++ [.outage (.update .pending) (.times 1)]

/-- Both cases. A recovery queues the first task and fails at the second one: when nobody has anything to do
outside the lock any more, the start of the first task is the only event there has been. And a recovery that
succeeds has queued the first task and not reported it when its start is. -/
theorem starts_unreported :
    let c := Setup.small 0
    let failed := refusingRun ++ .recover :: startingRun
    let overtaken := (leftOver.take 1).map .putRecord ++ .recover :: startingRun
    ((State.init c {}).Follows c Move.Fresh failed ∧
      ((State.init c {}).run c failed).events = [.started "a" 1] ∧
      ((State.init c {}).run c failed).calls = []) ∧
    (State.init c {}).Follows c Move.Fresh overtaken ∧
      ((State.init c {}).run c overtaken).events = [.started "a" 1] := by
  intro c failed overtaken
  refine ⟨?_, by decide +kernel, by decide +kernel⟩
  let s := (State.init c {}).run c refusingRun
  have listing : s.disk.listPending = (.ok leftOver, s.disk) :=
    (Disk.listPending_of_sorted rfl (by decide +kernel)).trans (by decide +kernel)
  obtain ⟨e, refused⟩ := recover_of_refused (c := c) listing (by decide +kernel)
  have recovered : s.step c .recover = (recoverRecords c leftOver s {}).2 := congrArg Prod.snd refused
  have run : (State.init c {}).run c failed = (s.step c .recover).run c startingRun := run_append c _ _ _
  have fresh : (State.init c {}).Follows c Move.Fresh failed ↔
      (State.init c {}).Follows c Move.Fresh refusingRun ∧ True ∧
        (s.step c .recover).Follows c Move.Fresh startingRun := Follows.append
  rw [fresh, run, recovered]
  decide +kernel

end State

end Scheduler

end Courier
