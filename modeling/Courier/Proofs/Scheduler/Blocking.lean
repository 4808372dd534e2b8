/-
# Courier.Proofs.Scheduler.Blocking -- when the queue stands still

A claim that the store refuses leaves the queue as it is, whatever the reason. On a disk that refuses
nothing there is one reason left: the record of the head is gone. `State.claims_of_accepting` counts
what that costs: the tasks in front of the first one without a record are claimed, and none behind it.
`State.vanished_head_blocks` says that this does not pass. Over every run in which nobody brings the
record back the head stays where it is, and no task at all is claimed.
-/
import Courier.Proofs.Scheduler.Ownership

namespace Courier.Scheduler

variable {c : Setup} {E : Edits}

namespace State

/-! ## Claims -/

/-- The answers to this many claims, one after the other. -/
def claims : Nat → State → List Claim
  | 0, _ => []
  | n + 1, s => s.claimNext.1 :: claims n s.claimNext.2

/-- The queued tasks in front of the first one whose record is gone. -/
def claimable (s : State) : List Queued := s.queue.takeWhile fun q => q.id ∈ s.disk.store.ids

theorem claimNext_of_known {s : State} {task : Queued} {rest : List Queued}
    (accepting : s.disk.Accepting) (head : s.queue = task :: rest)
    (known : task.id ∈ s.disk.store.ids) :
    ∃ t, s.claimNext = (.task, t) ∧ t.queue = rest ∧ t.disk.store.ids = s.disk.store.ids ∧
      t.disk.Accepting := by
  obtain ⟨store, hstore⟩ := Store.updateStatus_of_mem known .running "" s.now
  obtain ⟨disk, hwrite, rfl, still⟩ := accepting.write (.update .running)
    (f := fun store => store.updateStatus task.id .running "" s.now) hstore
  have hw : s.writeStatus task.id .running "" =
      (.ok (), { s with disk, history := .wrote task.id .running "" :: s.history }) := by
    unfold writeStatus Disk.updateStatus
    rw [hwrite]
  unfold claimNext
  rw [head]
  simp only [hw]
  exact ⟨_, rfl, rfl, Store.ids_updateStatus hstore, still⟩

/-- A claim of a task without a record fails on any disk and changes nothing. -/
theorem claimNext_of_gone {s : State} {task : Queued} {rest : List Queued}
    (head : s.queue = task :: rest) (gone : task.id ∉ s.disk.store.ids) :
    ∃ disk, s.claimNext = (.storeFailed, { s with disk }) ∧ disk.store = s.disk.store := by
  rcases s.writeStatus_cases task.id .running "" with ⟨disk, -, writes⟩ | ⟨e, disk, hw, hstore, -⟩
  · exact absurd writes.known gone
  · unfold claimNext
    rw [head]
    simp only [hw]
    exact ⟨disk, by simp [head], hstore⟩

theorem claims_of_gone {s : State} {task : Queued} {rest : List Queued} (head : s.queue = task :: rest)
    (gone : task.id ∉ s.disk.store.ids) (n : Nat) : claims n s = List.replicate n .storeFailed := by
  induction n generalizing s with
  | zero => rfl
  | succ n ih =>
    obtain ⟨disk, hclaim, hstore⟩ := claimNext_of_gone head gone
    rw [claims, hclaim, List.replicate_succ]
    rw [ih (s := { s with disk }) head (by rw [hstore]; exact gone)]

/-- On a disk that refuses nothing the claimable tasks are claimed, and then nothing is. -/
theorem claims_of_accepting {s : State} (accepting : s.disk.Accepting) :
    claims s.queue.length s = List.replicate s.claimable.length .task ++
      List.replicate (s.queue.length - s.claimable.length) .storeFailed := by
  -- Each claim that succeeds takes the head, so the induction is on the queue.
  generalize hqueue : s.queue = queue
  induction queue generalizing s with
  | nil => simp [claims, claimable, hqueue]
  | cons task rest ih =>
    by_cases known : task.id ∈ s.disk.store.ids
    · obtain ⟨t, hclaim, htail, hids, still⟩ := claimNext_of_known accepting hqueue known
      have hclaimable : s.claimable = task :: t.claimable := by
        simp [claimable, hqueue, htail, hids, known]
      rw [List.length_cons, claims, hclaim, ih still htail, hclaimable, List.length_cons,
        List.replicate_succ, List.cons_append, Nat.add_sub_add_right]
    · have hclaimable : s.claimable = [] := by
        simp [claimable, hqueue, known]
      rw [claims_of_gone hqueue known, hclaimable]
      rfl

/-- Somebody asks for as many claims as there are tasks in the queue, on a disk that refuses nothing.
The tasks in front of the first one without a record are claimed one after the other; so something is
claimed if and only if the record of the head is there. -/
theorem queue_moves_iff (s : State) (accepting : s.disk.Accepting) :
    claims s.queue.length s = List.replicate s.claimable.length .task ++
        List.replicate (s.queue.length - s.claimable.length) .storeFailed ∧
      (.task ∈ claims s.queue.length s ↔ ∃ task ∈ s.queue.head?, task.id ∈ s.disk.store.ids) := by
  have counted := claims_of_accepting accepting
  refine ⟨counted, ?_⟩
  rw [counted, claimable]
  cases s.queue with
  | nil => simp
  | cons task rest =>
    by_cases known : task.id ∈ s.disk.store.ids <;> simp [known]

/-- Three tasks are queued, and then one record is deleted. -/
def deletedRun (id : String) : List Move :=
  [.submit "a" "mem" [] "film", .submit "b" "mem" [] "song", .submit "c" "mem" [] "game", .deleteRecord id]

/-- With the second record gone one task is claimed, and the third one is not. -/
theorem queue_moves_up_to_vanished_task :
    let s := (State.init (Setup.small 0) {}).run (Setup.small 0) (deletedRun "b")
    s.disk.Accepting ∧ s.claimable.length = 1 ∧
      claims s.queue.length s = [.task, .storeFailed, .storeFailed] := by
  have accepting : ((State.init (Setup.small 0) {}).run (Setup.small 0) (deletedRun "b")).disk.Accepting := by
    decide +kernel
  exact ⟨accepting, by decide +kernel, (queue_moves_iff _ accepting).1.trans (by decide +kernel)⟩

/-- With the record of the head gone nothing is claimed, and two tasks with records wait. -/
theorem vanished_head_starves_live_tasks :
    let s := (State.init (Setup.small 0) {}).run (Setup.small 0) (deletedRun "a")
    (s.disk.Accepting ∧ (∃ task ∈ s.queue, task.id ∈ s.disk.store.ids)) ∧
      s.queue.length = 3 ∧ .task ∉ claims s.queue.length s := by
  refine ⟨⟨by decide +kernel, by decide +kernel⟩, by decide +kernel, by decide +kernel⟩

end State

/-! ## Runs -/

/-- Anything but the return of one record. -/
def Edits.without (id : String) : Edits := fun l store =>
  (∃ r, r.id ≠ id ∧ l.store.put r = .ok store) ∨ ∃ x, store = (l.store.delete x).2

namespace Ledger

/-- The head of the queue has no record, and since `past` nothing has been claimed. -/
structure Stuck (task : Queued) (past : List Happening) (l : Ledger) : Prop where
  head : ∃ rest, l.queue = task :: rest
  gone : task.id ∉ l.store.ids
  enqueued : .enqueued task.id ∈ l.history
  unclaimed : ∃ hs, l.history = hs ++ past ∧ ∀ id n, .claimed id n ∉ hs

namespace Stuck

variable {task : Queued} {past : List Happening} {l l' : Ledger}

theorem head_step (h : l.Stuck task past) (act : Act c E l l') : ∃ rest, l'.queue = task :: rest := by
  obtain ⟨rest, head⟩ := h.head
  have appended (q : Queued) : ∃ rest, l.queue ++ [q] = task :: rest := by
    rw [head]
    exact ⟨rest ++ [q], rfl⟩
  cases act with
  | submit r | takePending r | takeRunning r | requeue w => exact appended _
  | withdraw id store queued writes =>
    have hne : task.id ≠ id := by
      rintro rfl
      exact h.gone writes.known
    refine ⟨rest.eraseP fun q => q.id = id, ?_⟩
    simp only [head]
    exact List.eraseP_cons_of_neg (by simpa using hne)
  | claim other rest' store head' writes =>
    rw [head] at head'
    obtain ⟨rfl, -⟩ := List.cons_eq_cons.mp head'
    exact absurd writes.known h.gone
  | _ => exact h.head

theorem gone_step (h : l.Stuck task past) (act : Act c (.without task.id) l l') :
    task.id ∉ l'.store.ids := by
  rcases act.store_cases with same | (⟨r, hne, put⟩ | ⟨x, deleted⟩) | ⟨id, status, error, writes, -⟩
  · exact same.symm ▸ h.gone
  · rw [Store.mem_ids_put put, not_or]
    exact ⟨Ne.symm hne, h.gone⟩
  · exact fun known => h.gone ((l.store.ids_delete x).subset (deleted ▸ known))
  · exact writes.ids.symm ▸ h.gone

theorem step (h : l.Stuck task past) (act : Act c (.without task.id) l l') : l'.Stuck task past := by
  obtain ⟨hs, history, unclaimed⟩ := h.unclaimed
  obtain ⟨new, grown, noted⟩ := act.noted
  refine ⟨h.head_step act, h.gone_step act, ?_, new ++ hs, ?_, ?_⟩
  · rw [grown]
    exact List.mem_append_right new h.enqueued
  · rw [grown, history, List.append_assoc]
  · intro id n claimed
    rcases List.mem_append.mp claimed with claimed | claimed
    · obtain ⟨rest, head⟩ := h.head
      cases noted _ claimed with
      | outward x outward => cases outward
      | claimed id n before front known =>
        rw [queuedIds, head] at front
        obtain rfl : task.id = id := Option.some.inj front
        exact h.gone known
    · exact unclaimed id n claimed

end Stuck

end Ledger

namespace State

/-- A head without a record blocks the queue for good. Over every run in which nobody writes a record
under its id it stays the head, and nothing is claimed. -/
theorem vanished_head_blocks (c : Setup) (disk : Disk) (xs : List Move)
    (before : (State.init c disk).Follows c Move.Fresh xs) (task : Queued) (ys : List Move)
    (after : ((State.init c disk).run c xs).Follows c Move.Fresh ys)
    (apart : ∀ r, .putRecord r ∈ ys → r.id ≠ task.id) :
    let s := (State.init c disk).run c xs
    s.queue.head? = some task → task.id ∉ s.disk.store.ids →
      (s.run c ys).queue.head? = some task ∧
        ∃ hs, (s.run c ys).history = hs ++ s.history ∧ ∀ id n, .claimed id n ∉ hs := by
  intro s head gone
  have owned : s.ledger.Owned := (Ledger.Owned.init c disk).acts (run_acts_of_fresh before)
  obtain ⟨rest, head⟩ := List.head?_eq_some_iff.mp head
  have enqueued : .enqueued task.id ∈ s.history := by
    refine owned.tracked_enqueued task.id (Ledger.mem_tracked.mpr (Or.inl ?_))
    simp [ledger, Ledger.queuedIds, head]
  have stuck : s.ledger.Stuck task s.history := ⟨⟨rest, head⟩, gone, enqueued, [], rfl, by simp⟩
  have stays (t : State) (ms : List Move) (run : t.Follows c Move.Fresh ms)
      (apart : ∀ r, .putRecord r ∈ ms → r.id ≠ task.id) (stuck : t.ledger.Stuck task s.history) :
      (t.run c ms).ledger.Stuck task s.history := by
    induction ms generalizing t with
    | nil => exact stuck
    | cons m ms ih =>
      have act : m = .recover ∨ OneAct c (.without task.id) t.ledger (t.step c m).ledger := by
        refine t.step_act m ?_ ?_ (fun x _ => Or.inr ⟨x, rfl⟩)
        · rintro id kind payload title rfl
          refine ⟨run.1, fun store put => Or.inl ⟨.new id kind payload title t.now, ?_, put⟩⟩
          -- A submission comes under a new id, and the head was queued before.
          rintro rfl
          exact run.1.2 stuck.enqueued
        · rintro r store rfl put
          exact Or.inl ⟨r, apart r List.mem_cons_self, put⟩
      exact ih (t.step c m) run.2 (fun r hr => apart r (List.mem_cons_of_mem m hr))
        ((step_acts act).preserves (P := Ledger.Stuck task s.history) (fun _ _ h act => h.step act) stuck)
  obtain ⟨⟨rest', head'⟩, -, -, unclaimed⟩ := stays s ys after apart stuck
  refine ⟨?_, unclaimed⟩
  show (s.run c ys).queue.head? = some task
  rw [show (s.run c ys).queue = task :: rest' from head']
  rfl

end State

end Courier.Scheduler
