/-
# Courier.Proofs.Scheduler.Cancellation -- how long a cancellation is remembered

A cancellation is accepted at once and carried out later: the running task is marked, its worker stops
at some point and stores the end. `Remembers` is what keeps the request alive in between, a marked
entry, a place in the cancelling set or the stored end. It is lost in one way only: a worker lets go of
a task whose end it could not store, or that it takes for interrupted, and the mark goes with the entry.
The store still says `running` then, and the next recovery starts the task again.

`Course` follows both cases through a run, and `State.cancelled_runs_again_iff` is what comes of it.
-/
import Courier.Proofs.Scheduler.Recovery

namespace Courier.Scheduler

variable {c : Setup} {E : Edits} {l l' : Ledger} {id : String}

/-- Does this say that the task is taken up again, or let go of? -/
def Happening.concerns (id : String) : Happening → Bool
  | .letGo x | .enqueued x | .claimed x _ => x = id
  | _ => false

namespace Ledger

/-! ## Being told -/

/-- The worker of a marked entry has been told to stop. -/
def Told (l : Ledger) : Prop :=
  ∀ r ∈ l.running, r.cancelRequested = true → ∀ w ∈ l.workers, r.seq = w.seq → w.told = true

/-- An entry of the running set is an old one, or that of a new claim, or it has just been marked. -/
theorem Owned.entry_origin (h : l.Owned) (act : Act c E l l') {r : Running} (hr : r ∈ l'.running) :
    r ∈ l.running ∨ r.cancelRequested = false ∨
      ∀ w ∈ l'.workers, r.seq = w.seq → w.told = true := by
  cases act with
  | tell x found first =>
    obtain ⟨y, hy, rfl⟩ := List.mem_map.mp hr
    split
    · rename_i hid
      obtain rfl := h.running_eq hy found hid
      right; right
      intro w hw hseq
      obtain ⟨v, hv, rfl⟩ := List.mem_map.mp hw
      split
      · rfl
      · rename_i hne
        rw [if_neg hne] at hseq
        exact absurd hseq.symm hne
    · exact Or.inl hy
  | claim task rest store head =>
    rcases List.mem_append.mp hr with hr | hr
    · exact Or.inl (List.mem_filter.mp hr).1
    · rw [List.mem_singleton.mp hr]
      exact Or.inr (Or.inl rfl)
  | finish | letGo | requeue | holdBack => exact Or.inl (List.mem_filter.mp hr).1
  | _ => exact Or.inl hr

theorem Told.step (told : l.Told) (h : l.Owned) (act : Act c E l l') : l'.Told := by
  intro r hr asked v hv hseq
  rcases h.entry_origin act hr with before | unasked | told'
  · -- A new worker has a new number, and the entry an old one.
    rcases (h.origin act hv).heir_or_claimed with ⟨w, heir⟩ | ⟨new, -⟩
    · exact heir.told (told r before asked w heir.here (hseq.trans heir.seq.symm))
    · exact absurd (hseq.trans new) (Nat.ne_of_lt (h.entries_lt r before))
  · rw [unasked] at asked
    cases asked
  · exact told' v hv hseq

/-! ## Remembering -/

/-- Somewhere it is still known that the task was cancelled, or it has come to its end. -/
inductive Remembers (l : Ledger) (id : String) : Prop
  | asked (r : Running) (here : r ∈ l.running) (task : r.id = id) (asked : r.cancelRequested = true)
  | outstanding (here : id ∈ l.cancelling)
  | ended (status : Status) (stored : l.store.status? id = some status)
      (terminal : status.isTerminal = true)

/-- Nobody knows of the task but the store, which has it as running. -/
structure Forgotten (l : Ledger) (id : String) : Prop where
  untracked : id ∉ l.tracked
  stored : l.store.status? id = some .running

theorem Remembers.notMem_queuedIds (k : l.Remembers id) (h : l.Agrees) : id ∉ l.queuedIds := by
  intro queued
  cases k with
  | asked r here task asked =>
    exact h.queued_disjoint_running queued (task ▸ List.mem_map_of_mem here)
  | outstanding here => exact h.queued_disjoint_cancelling queued here
  | ended status stored terminal =>
    have pending := h.queued id queued
    rw [stored] at pending
    cases pending
    cases terminal

theorem requested_eq (h : l.Owned) {r : Running} (here : r ∈ l.running) :
    l.requested r.id = r.cancelRequested := by
  unfold requested
  cases hfind : l.running.find? fun x => x.id = r.id with
  | none =>
    rw [List.find?_eq_none] at hfind
    exact absurd (decide_eq_true rfl) (hfind r here)
  | some x =>
    have hid : x.id = r.id := by simpa using List.find?_some hfind
    rw [h.running_eq (List.mem_of_find?_eq_some hfind) here hid]

/-- Only by letting go a cancellation is forgotten. -/
theorem Remembers.step (k : l.Remembers id) (h : l.Agrees) (act : Act c .additions l l')
    (held : ∀ hs, l'.history = hs ++ l.history → .letGo id ∉ hs) : l'.Remembers id := by
  cases k with
  | ended status stored terminal =>
    exact .ended status (h.terminal_step act terminal stored) terminal
  | outstanding here =>
    rcases h.outstanding_step act here with here | stored
    · exact .outstanding here
    · exact .ended .cancelled stored rfl
  | asked r here task asked =>
    subst task
    have stays {x : String} (hne : r.id ≠ x) : r ∈ l.running.filter fun y => y.id ≠ x :=
      List.mem_filter.mpr ⟨here, decide_eq_true hne⟩
    cases act with
    | tell x found first =>
      refine .asked _ (List.mem_map_of_mem here) ?_ ?_
      · split <;> rfl
      · split <;> first | rfl | exact asked
    | claim task rest store head =>
      have hne : r.id ≠ task.id := by
        intro heq
        have queued : task.id ∈ l.queuedIds := by simp [queuedIds, head]
        exact h.queued_disjoint_running queued (heq ▸ List.mem_map_of_mem here)
      exact .asked r (List.mem_append_left _ (stays hne)) rfl asked
    | finish w e attempt store hw phase releases writes =>
      by_cases hne : r.id = w.task.id
      · exact .ended e.status (hne ▸ writes.status?_self) (Ending.isTerminal_of_releases releases)
      · exact .asked r (stays hne) rfl asked
    | letGo w es hw phase =>
      -- The only way to lose a mark: the entry goes, and nothing takes its place.
      by_cases hne : r.id = w.task.id
      · exact absurd (by simp [hne]) (held [_, _] rfl)
      · exact .asked r (stays hne) rfl asked
    | requeue w failure remaining hw phase unasked =>
      -- The mark is read in the section that would put the task back.
      refine .asked r (stays ?_) rfl asked
      intro heq
      rw [← heq, requested_eq h.toOwned here, asked] at unasked
      cases unasked
    | holdBack w failure remaining hw phase =>
      by_cases hne : r.id = w.task.id
      · exact .outstanding (List.mem_append_right _ (by simp [hne]))
      · exact .asked r (stays hne) rfl asked
    | _ => exact .asked r here rfl asked

/-! ## Forgetting -/

theorem forgotten_of_letGo (h : l.Agrees) (act : Act c .additions l l') {hs : List Happening}
    (history : l'.history = hs ++ l.history) (letGo : .letGo id ∈ hs) : l'.Forgotten id := by
  obtain ⟨hs', history', noted⟩ := act.noted
  obtain rfl : hs' = hs := List.append_cancel_right (history'.symm.trans history)
  cases noted _ letGo with
  | outward x h => cases h
  | letGo w here phase places store =>
    obtain ⟨holds, requeues⟩ := Phase.holds_of_leaves phase
    refine ⟨?_, store ▸ h.status_of_holds here holds requeues⟩
    rw [places]
    exact h.notMem_released (h.mem_runningIds here holds)

/-- A forgotten task stays forgotten until a recovery queues it. -/
theorem Forgotten.step (f : l.Forgotten id) (h : l.Agrees) (act : Act c .additions l l') :
    l'.Forgotten id ∨ ∃ hs, l'.history = hs ++ l.history ∧ .enqueued id ∈ hs := by
  have still (untracked : id ∉ l'.tracked) : l'.Forgotten id := by
    rcases h.forgotten_step act f.untracked f.stored with stored | queued
    · exact ⟨untracked, stored⟩
    · exact absurd (mem_tracked.mpr (Or.inl queued)) untracked
  rcases h.tracked_step act with fewer | ⟨x, new, onemore, noted⟩
  · exact Or.inl (still fun tracked => f.untracked (fewer.subset tracked))
  · by_cases heq : id = x
    · exact Or.inr (heq ▸ noted)
    · refine Or.inl (still fun tracked => ?_)
      rcases List.mem_cons.mp (onemore.mem_iff.mp tracked) with hid | tracked
      · exact heq hid
      · exact f.untracked tracked

/-! ## The course of a run -/

/-- What has become of a cancellation of `id` since it was accepted: `past` is the history up to then,
and the workers up to `bound` had been claimed. -/
inductive Course (id : String) (past : List Happening) (bound : Nat) (l : Ledger) : Prop
  | kept (hs : List Happening) (history : l.history = hs ++ past) (remembers : l.Remembers id)
      (quiet : ∀ x ∈ hs, x.concerns id = false)
      (workers : ∀ w ∈ l.workers, w.task.id = id → w.seq < bound)
  | lost (hs : List Happening) (history : l.history = hs ++ past) (letGo : .letGo id ∈ hs)
      (after : l.Forgotten id ∨ .enqueued id ∈ hs)

theorem Course.step {past : List Happening} {bound : Nat} (course : l.Course id past bound)
    (h : l.Agrees) (act : Act c .additions l l') : l'.Course id past bound := by
  obtain ⟨new, grown, noted⟩ := act.noted
  cases course with
  | kept hs history remembers quiet workers =>
    have history' : l'.history = (new ++ hs) ++ past := by
      rw [grown, history, List.append_assoc]
    -- Letting go is where the course turns; without it nothing noted can concern the task, since a
    -- remembered task is not queued.
    by_cases letGo : .letGo id ∈ new
    · exact .lost _ history' (List.mem_append_left hs letGo)
        (Or.inl (forgotten_of_letGo h act grown letGo))
    · have remembers' : l'.Remembers id := by
        refine remembers.step h act ?_
        intro new' grown'
        rwa [List.append_cancel_right (grown'.symm.trans grown)]
      refine .kept _ history' remembers' ?_ ?_
      · intro x hx
        rcases List.mem_append.mp hx with hx | hx
        · cases noted x hx with
          | outward x h => cases x <;> first | rfl | cases h
          | enqueued y queued =>
            refine decide_eq_false ?_
            rintro rfl
            exact remembers'.notMem_queuedIds (h.step act) queued
          | claimed y attempt queued =>
            refine decide_eq_false ?_
            rintro rfl
            exact remembers.notMem_queuedIds h queued
          | letGo w here phase places store =>
            refine decide_eq_false ?_
            rintro rfl
            exact letGo hx
          | withdrawn | accepted | released | ended | stored => rfl
        · exact quiet x hx
      · intro v hv hid
        rcases (h.origin act hv).heir_or_claimed with ⟨w, heir⟩ | ⟨-, queued, -⟩
        · exact heir.seq ▸ workers w heir.here (heir.task ▸ hid)
        · exact absurd (hid ▸ queued) (remembers.notMem_queuedIds h)
  | lost hs history letGo after =>
    have history' : l'.history = (new ++ hs) ++ past := by
      rw [grown, history, List.append_assoc]
    refine .lost _ history' (List.mem_append_right new letGo) ?_
    rcases after with forgotten | enqueued
    · rcases forgotten.step h act with forgotten | ⟨new', grown', enqueued⟩
      · exact Or.inl forgotten
      · rw [List.append_cancel_right (grown'.symm.trans grown)] at enqueued
        exact Or.inr (List.mem_append_left hs enqueued)
    · exact Or.inr (List.mem_append_right new enqueued)

/-- As long as nobody lets go of the task, nothing new happens to it. -/
theorem Course.kept_of_notMem {past hs : List Happening} {bound : Nat}
    (course : l.Course id past bound) (history : l.history = hs ++ past) (held : .letGo id ∉ hs) :
    (∀ x ∈ hs, x.concerns id = false) ∧ ∀ w ∈ l.workers, w.task.id = id → w.seq < bound := by
  cases course with
  | kept hs' history' remembers quiet workers =>
    obtain rfl : hs' = hs := List.append_cancel_right (history'.symm.trans history)
    exact ⟨quiet, workers⟩
  | lost hs' history' letGo =>
    obtain rfl : hs' = hs := List.append_cancel_right (history'.symm.trans history)
    exact absurd letGo held

theorem Course.lost_of_mem {past hs : List Happening} {bound : Nat}
    (course : l.Course id past bound) (history : l.history = hs ++ past) (letGo : .letGo id ∈ hs) :
    l.Forgotten id ∨ .enqueued id ∈ hs := by
  cases course with
  | kept hs' history' remembers quiet =>
    obtain rfl : hs' = hs := List.append_cancel_right (history'.symm.trans history)
    simpa [Happening.concerns] using quiet _ letGo
  | lost hs' history' _ after =>
    obtain rfl : hs' = hs := List.append_cancel_right (history'.symm.trans history)
    exact after

/-- Whoever still works on a task whose cancellation is remembered has been told to stop. -/
theorem Remembers.told (k : l.Remembers id) (h : l.Agrees) (told : l.Told) {w : Worker}
    (here : w ∈ l.workers) (task : w.task.id = id) (holds : w.phase.holds = true) : w.told = true := by
  obtain ⟨r, hr, hid, hseq⟩ := h.entry w here holds
  have running : id ∈ l.runningIds := task ▸ hid ▸ List.mem_map_of_mem hr
  cases k with
  | asked x hx htask asked =>
    obtain rfl := h.running_eq hx hr (by rw [htask, hid, task])
    exact told x hx asked w here hseq
  | outstanding outstanding => exact absurd outstanding (h.running_disjoint_cancelling running)
  | ended status stored terminal =>
    rcases h.running id running with before | ⟨before, -⟩ <;> rw [stored] at before <;> cases before <;>
      cases terminal

end Ledger

namespace State

/-! ## Runs -/

/-- What happened between two states of a run, the latest first. -/
def since (s t : State) : List Happening :=
  t.history.take (t.history.length - s.history.length)

theorem since_eq {s t : State} {hs : List Happening} (history : t.history = hs ++ s.history) :
    s.since t = hs := by
  simp [since, history]

theorem run_history {s : State} {ms : List Move} (run : s.Follows c Move.Orderly ms) :
    ∃ hs, (s.run c ms).history = hs ++ s.history :=
  (run_acts_of_orderly run).history

/-- What holds of the ledger whenever a cancellation may come. -/
theorem told_of_orderly {disk : Disk} (keyed : disk.store.Keyed) {ms : List Move}
    (run : (State.init c disk).Follows c Move.Orderly ms) :
    ((State.init c disk).run c ms).ledger.Told := by
  have both : ((State.init c disk).run c ms).ledger.Agrees ∧
      ((State.init c disk).run c ms).ledger.Told := by
    refine (run_acts_of_orderly run).preserves (P := fun l => l.Agrees ∧ l.Told) ?_ ?_
    · intro l l' h act
      exact ⟨h.1.step act, h.2.step h.1.toOwned act⟩
    · exact ⟨Ledger.Agrees.init c keyed, by simp [Ledger.Told, State.ledger, State.init]⟩
  exact both.2

theorem remembers_of_accepted {s : State} (accepted : (s.cancel id).1 = .ok ()) :
    (s.step c (.cancel id)).ledger.Remembers id := by
  rcases cancel_ok_cases accepted with stored | ⟨r, hr, hid, asked⟩
  · exact .ended .cancelled stored rfl
  · exact .asked r hr hid asked

/-- From the acceptance on, a run takes its course. -/
theorem course_of_orderly {s : State} (h : s.ledger.Agrees) (k : s.ledger.Remembers id)
    {ys : List Move} (run : s.Follows c Move.Orderly ys) :
    ∃ hs, (s.run c ys).history = hs ++ s.history ∧
      (s.run c ys).ledger.Course id s.history s.nextSeq := by
  have both : (s.run c ys).ledger.Agrees ∧ (s.run c ys).ledger.Course id s.history s.nextSeq := by
    refine (run_acts_of_orderly run).preserves
      (P := fun l => l.Agrees ∧ l.Course id s.history s.nextSeq) ?_ ?_
    · intro l l' both act
      exact ⟨both.1.step act, both.2.step both.1 act⟩
    · exact ⟨h, .kept [] rfl k (by simp) fun w hw _ => h.seqs_lt w hw⟩
  obtain ⟨-, course⟩ := both
  cases course with
  | kept hs history remembers quiet workers => exact ⟨hs, history, .kept hs history remembers quiet workers⟩
  | lost hs history letGo after => exact ⟨hs, history, .lost hs history letGo after⟩

/-- After an accepted cancellation of a task, over every run in which nobody else deletes or overwrites
a record: as long as no worker lets go of the task it is neither queued nor claimed again, and all its
workers are from before. Once a worker has let go of it, and only then, it is queued again by the next
recovery that the disk lets through. -/
theorem cancelled_runs_again_iff (c : Setup) (disk : Disk) (keyed : disk.store.Keyed)
    (xs : List Move) (id : String) (before : (State.init c disk).Follows c Move.Orderly xs)
    (accepted : (((State.init c disk).run c xs).cancel id).1 = .ok ()) (ys : List Move)
    (after : ((State.init c disk).run c (xs ++ [.cancel id])).Follows c Move.Orderly ys) :
    let s := (State.init c disk).run c (xs ++ [.cancel id])
    let u := s.run c ys
    let v := s.run c (ys ++ [.heal, .recover])
    (.letGo id ∉ s.since u →
      (∀ n, .claimed id n ∉ s.since u) ∧ .enqueued id ∉ s.since u ∧
        ∀ w ∈ u.workers, w.task.id = id → w.seq < s.nextSeq) ∧
      (.enqueued id ∈ s.since v ↔ .letGo id ∈ s.since u) := by
  intro s u v
  have run : (State.init c disk).Follows c Move.Orderly (xs ++ [.cancel id]) :=
    Follows.append.mpr ⟨before, trivial, trivial⟩
  have agrees : s.ledger.Agrees := agrees_of_orderly keyed run
  have remembers : s.ledger.Remembers id := by
    have hs : s = ((State.init c disk).run c xs).step c (.cancel id) := run_append c _ xs [.cancel id]
    rw [hs]
    exact remembers_of_accepted accepted
  obtain ⟨hs, historyU, atU⟩ := course_of_orderly agrees remembers after
  have after' : s.Follows c Move.Orderly (ys ++ [.heal, .recover]) :=
    Follows.append.mpr ⟨after, trivial, trivial, trivial⟩
  obtain ⟨-, -, atV⟩ := course_of_orderly agrees remembers after'
  have hv : v = (({ u with disk := u.disk.heal } : State).recover c).2 := run_append c s ys _
  obtain ⟨new, grown, quiet⟩ := recover_history (c := c) { u with disk := u.disk.heal }
  have historyV : v.history = (new ++ hs) ++ s.history := by
    rw [hv, grown, List.append_assoc, ← historyU]
  have sinceU : s.since u = hs := since_eq historyU
  have sinceV : s.since v = new ++ hs := since_eq historyV
  rw [sinceU, sinceV]
  refine ⟨?_, ?_, ?_⟩
  · intro held
    obtain ⟨quiet, workers⟩ := atU.kept_of_notMem historyU held
    exact ⟨fun n claimed => by simpa [Happening.concerns] using quiet _ claimed,
      fun enqueued => by simpa [Happening.concerns] using quiet _ enqueued, workers⟩
  · intro enqueued
    by_contra held
    have heldV : .letGo id ∉ new ++ hs := by
      simp [quiet id, held]
    simpa [Happening.concerns] using (atV.kept_of_notMem historyV heldV).1 _ enqueued
  · intro letGo
    -- The recovery finds a forgotten task, or the task had been queued before.
    rcases atU.lost_of_mem historyU letGo with forgotten | enqueued
    · have queued : id ∈ v.ledger.queuedIds := by
        rw [hv]
        exact recover_queues rfl forgotten.stored (Or.inr rfl) forgotten.untracked
      refine (atV.lost_of_mem historyV (List.mem_append_right new letGo)).resolve_left ?_
      intro stillForgotten
      exact stillForgotten.untracked (Ledger.mem_tracked.mpr (Or.inl queued))
    · exact List.mem_append_right new enqueued

/-- A task is submitted, claimed and fetched, and its storage works; from now on three writes of
`cancelled` will be refused. -/
def storingRun : List Move :=
  [.submit "a" "mem" (Transfer.encode ⟨"a", "out/a"⟩) "film", .start, .loop .go, .loop .permit,
    .loop .go, .loop .go, .worker 0 .go, .worker 0 .go, .worker 0 (.fetched (.ok ())),
    .outage (.update .cancelled) (.times 3)]

/-- The storage stops, its output is removed, and the end cannot be stored: the worker lets go. -/
def lettingGoRun : List Move :=
  [.worker 0 (.stored (.error Failure.cancelled)), .worker 0 .go, .worker 0 .go, .worker 0 .go,
    .worker 0 .go, .worker 0 .go, .worker 0 .go, .worker 0 .go, .worker 0 .go, .worker 0 .go,
    .worker 0 .go, .worker 0 .go]

/-- A recovery and the next turns of the loop. -/
def claimingRun : List Move :=
  [.recover, .loop .go, .loop .permit, .loop .go, .loop .go, .worker 1 .go]

/-- Three refused writes are enough for the cancelled task to be queued again. -/
theorem cancelled_runs_again_after_refusals :
    let s := (State.init (Setup.small 0) {}).run (Setup.small 0) (storingRun ++ [.cancel "a"])
    .letGo "a" ∈ s.since (s.run (Setup.small 0) lettingGoRun) ∧
      .enqueued "a" ∈ s.since (s.run (Setup.small 0) (lettingGoRun ++ [.heal, .recover])) := by
  have letGo : .letGo "a" ∈ State.since
      ((State.init (Setup.small 0) {}).run (Setup.small 0) (storingRun ++ [.cancel "a"]))
      (((State.init (Setup.small 0) {}).run (Setup.small 0) (storingRun ++ [.cancel "a"])).run
        (Setup.small 0) lettingGoRun) := by decide +kernel
  have iff := cancelled_runs_again_iff (Setup.small 0) {} List.nodup_nil storingRun "a"
    (by decide +kernel) (by decide +kernel) lettingGoRun (by decide +kernel)
  exact ⟨letGo, iff.2.mpr letGo⟩

/-- The scheduler claims and starts a task whose cancellation it has accepted. -/
theorem cancelled_task_claimed_again :
    let c := Setup.small 0
    let s := (State.init c {}).run c (storingRun ++ [.cancel "a"])
    let t := s.run c (lettingGoRun ++ claimingRun)
    ((State.init c {}).Follows c Move.Orderly (storingRun ++ .cancel "a" :: lettingGoRun ++ claimingRun) ∧
      (((State.init c {}).run c storingRun).cancel "a").1 = .ok ()) ∧
      .claimed "a" 1 ∈ s.since t ∧ .reported (.started "a" 1) ∈ s.since t ∧
      s.nextSeq = 1 ∧ ∃ w ∈ t.workers, w.task.id = "a" ∧ w.seq = 1 := by
  refine ⟨⟨by decide +kernel, by decide +kernel⟩, by decide +kernel, by decide +kernel,
    by decide +kernel, by decide +kernel⟩

end State

end Courier.Scheduler
