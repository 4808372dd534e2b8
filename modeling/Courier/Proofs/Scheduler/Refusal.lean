/-
# Courier.Proofs.Scheduler.Refusal -- what a refused operation leaves

A submission, a cancellation and a claim can be refused: by the scheduler, which does not know the kind
or the task or is shutting down, or by the disk. All three change memory and store together, and a claim
takes the head out of the queue before it asks the disk (`State.claimInSteps`). What is left after a refusal
is the state from before, whole, but for the outages of the disk, which has answered one question more
(`State.Unchanged`).

`refused_changes_nothing` says so of every state, with the reasons for which each operation is refused, and of
any row of refused operations.
-/
import Courier.Proofs.Scheduler.Moves
import Mathlib.Logic.Relation

namespace Courier.Scheduler

variable {c : Setup}

namespace State

/-! ## The same state but for the outages -/

/-- Between two states nothing has changed except what the disk will refuse next. -/
structure Unchanged (s t : State) : Prop where
  memory : t = { s with disk := t.disk }
  store : t.disk.store = s.disk.store

variable {s t u : State}

theorem Unchanged.refl (s : State) : s.Unchanged s := ⟨rfl, rfl⟩

theorem Unchanged.trans (h : s.Unchanged t) (h' : t.Unchanged u) : s.Unchanged u where
  memory := by
    rw [h'.memory, h.memory]
  store := h'.store.trans h.store

theorem unchanged_disk {disk : Disk} (h : disk.store = s.disk.store) : s.Unchanged { s with disk } := ⟨rfl, h⟩

/-- What can be asked of a scheduler reads the same. -/
theorem Unchanged.reads (h : s.Unchanged t) :
    t.queue = s.queue ∧ t.running = s.running ∧ t.cancelling = s.cancelling ∧ t.nextSeq = s.nextSeq ∧
      t.events = s.events ∧ t.calls = s.calls ∧ t.workers = s.workers ∧ t.wakeup = s.wakeup := by
  rw [h.memory]
  exact ⟨rfl, rfl, rfl, rfl, rfl, rfl, rfl, rfl⟩

/-! ## A claim step by step -/

/-- A claim as it goes: the head leaves the queue, its status is written, and a write that is refused puts
it back to where it was. -/
def claimInSteps (s : State) : Claim × State :=
  match s.queue with
  | [] => (.empty, s)
  | task :: rest =>
    match ({ s with queue := rest }).writeStatus task.id .running "" with
    | (.error _, t) => (.storeFailed, { t with queue := task :: t.queue })
    | (.ok (), t) =>
      let task := { task with attempts := task.attempts + 1 }
      let entry : Running :=
        { id := task.id, title := task.title, createdAt := task.createdAt, seq := t.nextSeq
          cancelRequested := false }
      let worker : Worker := { seq := t.nextSeq, task, phase := .claimed, told := false }
      (.task,
        { t with
          running := (t.running.filter fun r => r.id ≠ task.id) ++ [entry]
          nextSeq := t.nextSeq + 1
          workers := t.workers ++ [worker]
          history := .claimed task.id task.attempts :: t.history })

/-- A status write looks at the disk and the clock only. -/
theorem writeStatus_queue (s : State) (queue : List Queued) (id : String) (status : Status) (error : String) :
    ({ s with queue }).writeStatus id status error =
      ((s.writeStatus id status error).1, { (s.writeStatus id status error).2 with queue }) := by
  unfold writeStatus
  simp only
  split <;> simp_all

/-- Nobody sees the queue without its head: seen from outside a claim is one step. -/
theorem claimInSteps_eq (s : State) : s.claimInSteps = s.claimNext := by
  unfold claimInSteps claimNext
  cases hqueue : s.queue with
  | nil => rfl
  | cons task rest =>
    simp only [writeStatus_queue]
    rcases s.writeStatus_cases task.id .running "" with ⟨disk, hw, -⟩ | ⟨e, disk, hw, -⟩ <;> rw [hw]
    -- The head that was taken is put in front of what it was taken from.
    show (Claim.storeFailed, { s with disk, queue := task :: rest }) = (Claim.storeFailed, { s with disk })
    rw [← hqueue]

/-! ## Refusals -/

/-- A status write that fails was refused by the disk, and that is all. -/
theorem writeStatus_refused {id error : String} {status : Status} {e : Store.Error}
    (h : (s.writeStatus id status error).1 = .error e) :
    s.Unchanged (s.writeStatus id status error).2 ∧ (s.disk.updateStatus id status error s.now).1 = .error e := by
  rcases s.writeStatus_cases id status error with ⟨disk, hw, -⟩ | ⟨e', disk, hw, hstore, -⟩
  · rw [hw] at h
    cases h
  · rw [hw] at h ⊢
    refine ⟨unchanged_disk hstore, ?_⟩
    unfold writeStatus at hw
    split at hw <;> cases hw
    rename_i refused
    rw [refused]
    exact h

theorem submit_refused {id kind title : String} {payload : Bytes} {e : Refusal}
    (h : (s.submit c id kind payload title).1 = .error e) :
    s.Unchanged (s.submit c id kind payload title).2 ∧
      (c.kinds.contains kind = false ∧ e = .unknownKind kind ∨
        c.kinds.contains kind = true ∧ s.closed = true ∧ e = .shuttingDown ∨
        c.kinds.contains kind = true ∧ s.closed = false ∧
          ∃ e', (s.disk.put (.new id kind payload title s.now)).1 = .error e' ∧ e = .store e') := by
  refine ⟨?_, ?_⟩
  · rcases s.submit_cases (c := c) id kind payload title with ⟨e', disk, hstore, hs⟩ | ⟨disk, -, hs⟩
    · rw [hs]
      exact unchanged_disk hstore
    · rw [hs] at h
      cases h
  · unfold submit at h
    cases known : c.kinds.contains kind with
    | false =>
      simp only [known] at h
      cases h
      exact .inl ⟨rfl, rfl⟩
    | true =>
      cases closed : s.closed with
      | true =>
        simp only [known, closed] at h
        cases h
        exact .inr (.inl ⟨rfl, rfl, rfl⟩)
      | false =>
        simp only [known, closed] at h
        refine .inr (.inr ⟨rfl, rfl, ?_⟩)
        generalize s.disk.put (.new id kind payload title s.now) = written at h
        obtain ⟨answer, disk⟩ := written
        cases answer with
        | ok _ => cases h
        | error e' =>
          cases h
          exact ⟨e', rfl, rfl⟩

theorem cancel_refused {id : String} {e : Refusal} (h : (s.cancel id).1 = .error e) :
    s.Unchanged (s.cancel id).2 ∧
      (id ∉ s.ledger.queuedIds ∧ id ∉ s.ledger.runningIds ∧ e = .notFound id ∨
        id ∈ s.ledger.queuedIds ∧
          ∃ e', (s.disk.updateStatus id .cancelled "" s.now).1 = .error e' ∧ e = .store e') := by
  unfold cancel at h ⊢
  by_cases queued : s.isQueued id = true
  · rw [if_pos queued] at h ⊢
    have refused (e : Store.Error) (h : (s.writeStatus id .cancelled "").1 = .error e) := writeStatus_refused h
    generalize s.writeStatus id .cancelled "" = written at h refused ⊢
    obtain ⟨answer, t⟩ := written
    cases answer with
    | ok _ => cases h
    | error e' =>
      cases h
      obtain ⟨unchanged, why⟩ := refused e' rfl
      exact ⟨unchanged, .inr ⟨(s.isQueued_iff id).mp queued, e', why, rfl⟩⟩
  · rw [if_neg queued] at h ⊢
    cases running : s.running? id with
    | some r =>
      rw [running] at h
      cases h
    | none =>
      rw [running] at h
      cases h
      refine ⟨.refl s, .inl ⟨fun mem => queued ((s.isQueued_iff id).mpr mem), fun mem => ?_, rfl⟩⟩
      rw [← s.running?_isSome_iff id, running] at mem
      cases mem

theorem claimNext_refused (h : s.claimNext.1 = .storeFailed) :
    s.Unchanged s.claimNext.2 ∧ ∃ task rest e, s.queue = task :: rest ∧
      (s.disk.updateStatus task.id .running "" s.now).1 = .error e := by
  unfold claimNext at h ⊢
  cases hqueue : s.queue with
  | nil =>
    rw [hqueue] at h
    cases h
  | cons task rest =>
    simp only [hqueue] at h
    simp only
    have refused (e : Store.Error) (h : (s.writeStatus task.id .running "").1 = .error e) := writeStatus_refused h
    generalize s.writeStatus task.id .running "" = written at h refused ⊢
    obtain ⟨answer, t⟩ := written
    cases answer with
    | ok _ => cases h
    | error e =>
      obtain ⟨unchanged, why⟩ := refused e rfl
      exact ⟨unchanged, task, rest, e, rfl, why⟩

/-! ## Rows of refusals -/

/-- An operation is refused in the state `s` and leaves `t`. -/
inductive Refused (c : Setup) (s : State) : State → Prop
  | submit {id kind title : String} {payload : Bytes} {e : Refusal}
      (h : (s.submit c id kind payload title).1 = .error e) : Refused c s (s.submit c id kind payload title).2
  | cancel {id : String} {e : Refusal} (h : (s.cancel id).1 = .error e) : Refused c s (s.cancel id).2
  | claim (h : s.claimInSteps.1 = .storeFailed) : Refused c s s.claimInSteps.2

theorem Refused.unchanged (h : Refused c s t) : s.Unchanged t := by
  cases h with
  | submit h => exact (submit_refused h).1
  | cancel h => exact (cancel_refused h).1
  | claim h =>
    rw [claimInSteps_eq] at h ⊢
    exact (claimNext_refused h).1

/-- However many operations are refused one after the other. -/
theorem unchanged_of_refusals (h : Relation.ReflTransGen (Refused c) s t) : s.Unchanged t := by
  induction h with
  | refl => exact .refl s
  | tail _ refused ih => exact ih.trans refused.unchanged

/-- A refused operation changes nothing. A submission is refused because nobody handles the kind, because the scheduler
is shutting down, or by the disk; a cancellation because the task is neither queued nor running, or by the disk; a claim
by the disk, and it is the same one step for everybody else however its steps go. Whichever it is, the whole state is
the one from before, and so is the store, and only the outages of the disk may have moved on; the same holds of any row
of refused operations, and the loop that was refused a claim does no more than give its permit back and wait. -/
theorem refused_changes_nothing (c : Setup) (s : State) :
    (∀ id kind payload title e, (s.submit c id kind payload title).1 = .error e →
      s.Unchanged (s.submit c id kind payload title).2 ∧
        (c.kinds.contains kind = false ∧ e = .unknownKind kind ∨
          c.kinds.contains kind = true ∧ s.closed = true ∧ e = .shuttingDown ∨
          c.kinds.contains kind = true ∧ s.closed = false ∧
            ∃ e', (s.disk.put (.new id kind payload title s.now)).1 = .error e' ∧ e = .store e')) ∧
    (∀ id e, (s.cancel id).1 = .error e →
      s.Unchanged (s.cancel id).2 ∧
        (id ∉ s.ledger.queuedIds ∧ id ∉ s.ledger.runningIds ∧ e = .notFound id ∨
          id ∈ s.ledger.queuedIds ∧
            ∃ e', (s.disk.updateStatus id .cancelled "" s.now).1 = .error e' ∧ e = .store e')) ∧
    s.claimInSteps = s.claimNext ∧
    (s.claimNext.1 = .storeFailed →
      s.Unchanged s.claimNext.2 ∧
        (∃ task rest e, s.queue = task :: rest ∧ (s.disk.updateStatus task.id .running "" s.now).1 = .error e) ∧
        (s.loop = .claiming →
          s.step c (.loop .go) = { s.claimNext.2 with free := s.free + 1, loop := .backingOff })) ∧
    ∀ t, Relation.ReflTransGen (Refused c) s t →
      t.queue = s.queue ∧ t.running = s.running ∧ t.cancelling = s.cancelling ∧ t.nextSeq = s.nextSeq ∧
        t.disk.store = s.disk.store ∧ t.events = s.events ∧ s.Unchanged t := by
  refine ⟨fun id kind payload title e => submit_refused, fun id e => cancel_refused, s.claimInSteps_eq,
    fun refused => ?_, fun t refusals => ?_⟩
  · obtain ⟨unchanged, why⟩ := claimNext_refused refused
    refine ⟨unchanged, why, fun claiming => ?_⟩
    have free : s.claimNext.2.free = s.free := by rw [unchanged.memory]
    show s.stepLoop .go = _
    unfold stepLoop
    rw [claiming]
    generalize s.claimNext = claim at refused free ⊢
    obtain ⟨answer, t⟩ := claim
    cases refused
    simp only at free ⊢
    rw [free]
  · have unchanged := unchanged_of_refusals refusals
    obtain ⟨queue, running, cancelling, nextSeq, events, -⟩ := unchanged.reads
    exact ⟨queue, running, cancelling, nextSeq, unchanged.store, events, unchanged⟩

/-- On a disk that refuses `running` twice two claims are refused, and then a submission that nobody handles. -/
theorem refused_changes_nothing_twice :
    let c := Setup.small 0
    let s := (State.init c {}).run c [.submit "a" "mem" [] "film", .submit "b" "mem" [] "song",
      .outage (.update .running) (.times 2)]
    let t := s.claimInSteps.2.claimInSteps.2
    s.claimInSteps.1 = .storeFailed ∧ s.claimInSteps.2.claimInSteps.1 = .storeFailed ∧
      (t.submit c "d" "dvd" [] "film").1 = .error (.unknownKind "dvd") ∧
      (t.submit c "d" "dvd" [] "film").2.queue = s.queue ∧ t.disk.outages ≠ s.disk.outages := by
  intro c s t
  have first : s.claimInSteps.1 = .storeFailed := by decide +kernel
  have second : s.claimInSteps.2.claimInSteps.1 = .storeFailed := by decide +kernel
  have third : (t.submit c "d" "dvd" [] "film").1 = .error (.unknownKind "dvd") := by decide +kernel
  have refusals : Relation.ReflTransGen (Refused c) s (t.submit c "d" "dvd" [] "film").2 :=
    ((Relation.ReflTransGen.single (.claim first)).tail (.claim second)).tail (.submit third)
  obtain ⟨-, -, -, -, row⟩ := refused_changes_nothing c s
  exact ⟨first, second, third, (row _ refusals).1, by decide +kernel⟩

end State

end Courier.Scheduler
