/-
# Courier.Proofs.Scheduler.Gathering -- what a recovery has done, and what it says of it

Under the lock a recovery queues tasks and stores outstanding cancellations, and keeps an account of both.
It reports from the account, and wakes the loop, after it has left the lock. A refused write ends it in the
middle of its records, and the account goes with it: the tasks that are in the queue by then stay there,
without an event and without a wake-up, and the next recovery finds them known. `State.recovery_reports_iff`
says of every state what is done and what is reported, and when the two agree.
-/
import Courier.Proofs.Scheduler.Moves

namespace Courier

/-- A listing of a table that is in order already. -/
theorem Disk.listPending_of_sorted {d : Disk} {rows : List Row} (table : d.store.rows = .ok rows)
    (sorted : (rows.filter Row.isUnfinished).Pairwise fun a b => a.createdAt ≤ b.createdAt) :
    d.listPending =
      if (d.consult .listPending).1 then (.error detached, (d.consult .listPending).2)
      else ((rows.filter Row.isUnfinished).mapM Row.record, (d.consult .listPending).2) := by
  have same : d.store.listPending = (rows.filter Row.isUnfinished).mapM Row.record := by
    rw [Store.listPending_eq table]
    unfold Store.unfinished Store.oldestFirst
    rw [Store.rows_eq_ok table, List.mergeSort_of_pairwise (sorted.imp decide_eq_true)]
  unfold listPending
  simp only [store_consult, same]

namespace Scheduler

variable {c : Setup}

/-- Is this something that a recovery notes under the lock? -/
def Happening.gathers : Happening → Bool
  | .enqueued _ | .wrote _ .pending _ | .wrote _ .cancelled _ => true
  | _ => false

/-- What an effect reports. -/
def Effect.event? : Effect → Option Event
  | .report e => some e
  | _ => none

namespace State

/-! ## Returning -/

/-- A caller carries out its effects, with nobody stepping in between. -/
def returns (c : Setup) (s : State) (call : Nat) : State :=
  s.run c (List.replicate ((s.calls[call]?).getD []).length (.resume call))

theorem events_note (s : State) (e : Event) : (s.note (.reported e)).events = s.events ++ [e] := by
  simp [events, note]

theorem events_perform (s : State) (e : Effect) :
    (s.perform e).events = s.events ++ e.event?.toList ∧
      ((s.perform e).wakeup = true ↔ s.wakeup = true ∨ e = .wake) := by
  cases e with
  | report e => exact ⟨s.events_note e, by simp [perform, note]⟩
  | announce n => simp [events, perform, note, Effect.event?]
  | wake => simp [events, perform, Effect.event?]

/-- The last caller carries out its effects in their order. -/
theorem run_resume {s : State} {others : List (List Effect)} {es : List Effect}
    (last : s.calls = others ++ [es]) :
    let u := s.run c (List.replicate es.length (.resume others.length))
    u.events = s.events ++ es.filterMap Effect.event? ∧
      (u.wakeup = true ↔ s.wakeup = true ∨ .wake ∈ es) := by
  induction es generalizing s with
  | nil => simp [run]
  | cons e es ih =>
    have next : s.calls[others.length]? = some (e :: es) := by simp [last]
    have first : s.resume others.length =
        ({ s with calls := others ++ [es] } : State).perform e := by
      simp only [resume, next]
      simp [last]
    have calls : (s.resume others.length).calls = others ++ [es] := by
      rw [first]
      cases e <;> rfl
    obtain ⟨events, wakeup⟩ := ih calls
    obtain ⟨events', wakeup'⟩ := ({ s with calls := others ++ [es] } : State).events_perform e
    rw [← first] at events' wakeup'
    refine ⟨events.trans ?_, wakeup.trans ?_⟩
    · rw [events']
      show s.events ++ _ ++ _ = _
      rw [List.append_assoc]
      cases e <;> rfl
    · rw [wakeup', or_assoc, List.mem_cons, eq_comm (a := e)]

/-! ## The account -/

/-- The account of a recovery, carried on. -/
def Recovery.add (done : Recovery) (taken : List Record) (settled : List String) : Recovery where
  recovered := done.recovered ++ taken.map fun r => (r.id, r.status)
  cancelled := done.cancelled ++ settled

/-- What a recovery does under the lock, from `s` to `t`: the tasks of `taken` are queued, in this order,
and the cancellations of `settled` are no longer outstanding. -/
structure Gathered (c : Setup) (s t : State) (taken : List Record) (settled : List String) : Prop where
  queue : t.queue = s.queue ++ taken.map (Queued.ofRecord c)
  cancelling : t.cancelling = settled.foldl List.erase s.cancelling
  outstanding : ∀ id ∈ settled, id ∈ s.cancelling
  /-- Nobody outside hears of it. -/
  calls : t.calls = s.calls
  wakeup : t.wakeup = s.wakeup
  running : t.running = s.running
  history : ∃ hs, t.history = hs ++ s.history ∧ (∀ x ∈ hs, x.gathers = true) ∧
    ∀ id ∈ settled, .wrote id .cancelled "" ∈ hs

theorem Gathered.refl (s : State) (disk : Disk) : Gathered c s { s with disk } [] [] where
  queue := by simp
  cancelling := rfl
  outstanding := by simp
  calls := rfl
  wakeup := rfl
  running := rfl
  history := ⟨[], rfl, by simp, by simp⟩

theorem foldl_erase_sublist (ids settled : List String) : (settled.foldl List.erase ids).Sublist ids := by
  induction settled generalizing ids with
  | nil => exact List.Sublist.refl _
  | cons id settled ih => exact (ih (ids.erase id)).trans List.erase_sublist

theorem Gathered.trans {s t u : State} {taken more : List Record} {settled others : List String}
    (h : Gathered c s t taken settled) (h' : Gathered c t u more others) :
    Gathered c s u (taken ++ more) (settled ++ others) := by
  obtain ⟨hs, history, quiet, stored⟩ := h.history
  obtain ⟨hs', history', quiet', stored'⟩ := h'.history
  refine ⟨?_, ?_, ?_, h'.calls.trans h.calls, h'.wakeup.trans h.wakeup, h'.running.trans h.running,
    hs' ++ hs, ?_, ?_, ?_⟩
  · rw [h'.queue, h.queue, List.map_append, List.append_assoc]
  · rw [h'.cancelling, h.cancelling, List.foldl_append]
  · intro id hid
    rcases List.mem_append.mp hid with hid | hid
    · exact h.outstanding id hid
    · have still := h'.outstanding id hid
      rw [h.cancelling] at still
      exact (foldl_erase_sublist _ _).subset still
  · rw [history', history, List.append_assoc]
  · intro x hx
    exact (List.mem_append.mp hx).elim (quiet' x) (quiet x)
  · intro id hid
    rcases List.mem_append.mp hid with hid | hid
    · exact List.mem_append_right _ (stored id hid)
    · exact List.mem_append_left _ (stored' id hid)

theorem Gathered.events {s t : State} {taken : List Record} {settled : List String}
    (h : Gathered c s t taken settled) : t.events = s.events := by
  obtain ⟨hs, history, quiet, -⟩ := h.history
  have silent : ({ s with history := hs } : State).events = [] := by
    refine List.eq_nil_iff_forall_not_mem.mpr fun e reported => ?_
    exact Bool.false_ne_true (quiet _ (mem_events.mp reported))
  unfold State.events at silent ⊢
  rw [history, List.reverse_append, List.filterMap_append, silent, List.append_nil]

/-- One record of a recovery: it is queued, or its cancellation is stored, or nothing is done. -/
theorem recoverRecord_gathers (s : State) (done : Recovery) (r : Record) :
    let w := s.recoverRecord c done r
    ∃ taken settled, taken.Sublist [r] ∧ Gathered c s w.2 taken settled ∧
      ∀ next, w.1 = .ok next → next = done.add taken settled := by
  have nothing : done.add [] [] = done := by simp [Recovery.add]
  unfold recoverRecord
  split
  · rename_i held
    rcases s.writeStatus_cases r.id .cancelled "" with ⟨disk, hw, -⟩ | ⟨e, disk, hw, -⟩
    · rw [hw]
      refine ⟨[], [r.id], List.nil_sublist _, ?_, ?_⟩
      · exact ⟨by simp, rfl, by simpa using held, rfl, rfl, rfl, [_], rfl, by simp [Happening.gathers],
          by simp⟩
      · intro next hnext
        cases hnext
        simp [Recovery.add]
    · rw [hw]
      refine ⟨[], [], List.nil_sublist _, .refl s disk, ?_⟩
      intro next hnext
      cases hnext
      exact nothing.symm
  · split
    · refine ⟨[], [], List.nil_sublist _, .refl s s.disk, ?_⟩
      intro next hnext
      cases hnext
      exact nothing.symm
    · by_cases hrun : r.status = .running
      · simp only [hrun, if_true]
        rcases s.writeStatus_cases r.id .pending "" with ⟨disk, hw, -⟩ | ⟨e, disk, hw, -⟩
        · rw [hw]
          refine ⟨[r], [], List.Sublist.refl _, ?_, ?_⟩
          · exact ⟨rfl, rfl, by simp, rfl, rfl, rfl, [_, _], rfl, by simp [Happening.gathers], by simp⟩
          · intro next hnext
            cases hnext
            simp [Recovery.add, hrun]
        · rw [hw]
          exact ⟨[], [], List.nil_sublist _, .refl s disk, fun _ no => by cases no⟩
      · simp only [hrun, if_false]
        refine ⟨[r], [], List.Sublist.refl _, ?_, ?_⟩
        · exact ⟨rfl, rfl, by simp, rfl, rfl, rfl, [_], rfl, by simp [Happening.gathers], by simp⟩
        · intro next hnext
          cases hnext
          simp [Recovery.add]

/-- Up to the first refused write the records are gone through in their order. -/
theorem recoverRecords_gathers (records : List Record) (s : State) (done : Recovery) :
    let w := recoverRecords c records s done
    ∃ taken settled, taken.Sublist records ∧ Gathered c s w.2 taken settled ∧
      ∀ final, w.1 = .ok final → final = done.add taken settled := by
  induction records generalizing s done with
  | nil =>
    refine ⟨[], [], List.Sublist.refl _, .refl s s.disk, ?_⟩
    intro final hfinal
    cases hfinal
    simp [Recovery.add]
  | cons r records ih =>
    obtain ⟨first, firstSettled, hfirst, gathered, account⟩ := s.recoverRecord_gathers (c := c) done r
    unfold recoverRecords
    generalize s.recoverRecord c done r = w at gathered account
    obtain ⟨result, t⟩ := w
    cases result with
    | ok next =>
      obtain ⟨rest, restSettled, hrest, gathered', account'⟩ := ih t next
      refine ⟨first ++ rest, firstSettled ++ restSettled, hfirst.append hrest, gathered.trans gathered', ?_⟩
      intro final hfinal
      rw [account' final hfinal, account next rfl]
      simp [Recovery.add]
    | error e =>
      refine ⟨first, firstSettled, ?_, gathered, fun _ no => by cases no⟩
      exact hfirst.trans (List.singleton_sublist.mpr List.mem_cons_self)

/-- A recovery goes through the unfinished tasks of the store in their order. If it comes to its end, it
leaves the lock with its account; if not, with nothing. -/
theorem recover_gathers (s : State) :
    let w := s.recover c
    ∃ (t : State) (taken : List Record) (settled : List String),
      (∀ records, s.disk.listPending.1 = .ok records → taken.Sublist records) ∧
        Gathered c s t taken settled ∧
        ((w.1 = .ok taken.length ∧
            w.2 = { t with calls := s.calls ++ [(({} : Recovery).add taken settled).effects] }) ∨
          (∃ e, w.1 = .error e) ∧ w.2 = t) := by
  unfold recover
  split
  · rename_i e disk hlist
    refine ⟨{ s with disk }, [], [], ?_, .refl s disk, Or.inr ⟨⟨_, rfl⟩, rfl⟩⟩
    exact fun _ _ => List.nil_sublist _
  · rename_i records disk hlist
    obtain ⟨taken, settled, hsub, gathered, account⟩ :=
      recoverRecords_gathers (c := c) records { s with disk } {}
    have listed : ∀ rs, s.disk.listPending.1 = .ok rs → taken.Sublist rs := by
      intro rs hrs
      rw [hlist] at hrs
      cases hrs
      exact hsub
    have gathered : Gathered c s (recoverRecords c records { s with disk } {}).2 taken settled :=
      (Gathered.refl s disk).trans gathered
    generalize recoverRecords c records { s with disk } {} = w at gathered account
    obtain ⟨result, t⟩ := w
    refine ⟨t, taken, settled, listed, gathered, ?_⟩
    cases result with
    | error e => exact Or.inr ⟨⟨_, rfl⟩, rfl⟩
    | ok done =>
      obtain rfl := account done rfl
      left
      refine ⟨by simp [Recovery.add], ?_⟩
      show ({ t with calls := t.calls ++ _ } : State) = _
      rw [gathered.calls]

/-- Whether it comes to its end or not, what a recovery leaves is what it has done under the lock. -/
theorem recover_adds (s : State) :
    ∃ (taken : List Record) (hs : List Happening),
      (∀ records, s.disk.listPending.1 = .ok records → taken.Sublist records) ∧
        (s.recover c).2.queue = s.queue ++ taken.map (Queued.ofRecord c) ∧
        (s.recover c).2.running = s.running ∧ (s.recover c).2.history = hs ++ s.history ∧
        ∀ x ∈ hs, x.gathers = true := by
  obtain ⟨t, taken, settled, listed, gathered, outcome⟩ := s.recover_gathers (c := c)
  obtain ⟨hs, history, gathers, -⟩ := gathered.history
  obtain ⟨calls, ht⟩ : ∃ calls, (s.recover c).2 = { t with calls } :=
    outcome.elim (fun ok => ⟨_, ok.2⟩) fun refused => ⟨t.calls, refused.2⟩
  rw [ht]
  exact ⟨taken, hs, listed, gathered.queue, gathered.running, history, gathers⟩

/-! ## What is reported -/

/-- The events of a whole account, in the order in which they are reported. -/
def accountEvents (taken : List Record) (settled : List String) : List Event :=
  settled.map .cancelled ++ taken.map fun r => .recovered r.id r.status

theorem Recovery.effects_add (taken : List Record) (settled : List String) :
    let es := (({} : Recovery).add taken settled).effects
    es.filterMap Effect.event? = accountEvents taken settled ∧ (.wake ∈ es ↔ taken ≠ []) := by
  have events (ids : List String) :
      (ids.map fun id => Effect.report (.cancelled id)).filterMap Effect.event? = ids.map .cancelled := by
    rw [List.filterMap_map]
    exact congrFun List.filterMap_eq_map' ids
  cases taken with
  | nil => simp [Recovery.add, Recovery.effects, accountEvents, events]
  | cons r taken =>
    simp [Recovery.add, Recovery.effects, accountEvents, events, List.filterMap_map, Effect.event?,
      Function.comp_def]

/-- From `s` to `u` it has been reported that the tasks of `taken` were queued, with the status in which
each was found, and that the tasks of `settled` are cancelled; and the loop is woken if it has to be. -/
structure Reported (s u : State) (taken : List Record) (settled : List String) : Prop where
  recovered : ∀ r ∈ taken, .recovered r.id r.status ∈ u.events.drop s.events.length
  woken : taken ≠ [] → u.wakeup = true
  cancelled : ∀ id ∈ settled, .cancelled id ∈ u.events.drop s.events.length

/-- A recovery that is stopped by a refused write. -/
theorem recover_of_refused {s : State} {disk : Disk} {records : List Record}
    (listing : s.disk.listPending = (.ok records, disk))
    (refused : (recoverRecords c records { s with disk } {}).1.isOk = false) :
    ∃ e, s.recover c = (.error e, (recoverRecords c records { s with disk } {}).2) := by
  unfold recover
  rw [listing]
  simp only
  generalize recoverRecords c records { s with disk } {} = w at refused
  obtain ⟨result, t⟩ := w
  cases result with
  | ok done => cases refused
  | error e => exact ⟨_, rfl⟩

theorem reported_of_events {s u : State} {taken : List Record} {settled : List String}
    (events : u.events = s.events ++ accountEvents taken settled) (woken : taken ≠ [] → u.wakeup = true) :
    Reported s u taken settled := by
  have new : u.events.drop s.events.length = accountEvents taken settled := by
    rw [events, List.drop_left]
  refine ⟨?_, woken, ?_⟩
  · intro r hr
    rw [new]
    exact List.mem_append_right _ (List.mem_map.mpr ⟨r, hr, rfl⟩)
  · intro id hid
    rw [new]
    exact List.mem_append_left _ (List.mem_map_of_mem hid)

/-- Who reports nothing has nothing to report. -/
theorem eq_nil_of_reported {s u : State} {taken : List Record} {settled : List String}
    (silent : u.events = s.events) (h : Reported s u taken settled) : taken = [] ∧ settled = [] := by
  have none : u.events.drop s.events.length = [] := by rw [silent, List.drop_length]
  constructor
  · rw [List.eq_nil_iff_forall_not_mem]
    intro r hr
    have := h.recovered r hr
    simp [none] at this
  · rw [List.eq_nil_iff_forall_not_mem]
    intro id hid
    have := h.cancelled id hid
    simp [none] at this

/-- A recovery that comes to its end goes on with its account, as the last one of the callers. -/
theorem Gathered.returned {s t w : State} {taken : List Record} {settled : List String}
    (h : Gathered c s t taken settled)
    (leaves : w = { t with calls := s.calls ++ [(({} : Recovery).add taken settled).effects] }) :
    let u := w.returns c s.calls.length
    u.events = s.events ++ accountEvents taken settled ∧
      (u.wakeup = true ↔ s.wakeup = true ∨ taken ≠ []) := by
  intro u
  obtain ⟨effects, wakes⟩ := Recovery.effects_add taken settled
  have calls : w.calls = s.calls ++ [(({} : Recovery).add taken settled).effects] :=
    congrArg State.calls leaves
  have events : w.events = s.events := (congrArg State.events leaves).trans h.events
  have wakeup : w.wakeup = s.wakeup := (congrArg State.wakeup leaves).trans h.wakeup
  have resumed := run_resume (c := c) calls
  rw [effects, wakes, events, wakeup] at resumed
  have same : u = w.run c (List.replicate (({} : Recovery).add taken settled).effects.length
      (.resume s.calls.length)) := by
    show w.returns c s.calls.length = _
    simp [returns, calls]
  rw [same]
  exact resumed

/-- A caller that is not there does nothing. -/
theorem returns_of_calls {s t : State} (calls : t.calls = s.calls) :
    t.returns c s.calls.length = t := by
  simp [returns, calls, run]

/-- What a recovery does and what it reports, in every state, whatever the store holds and whichever
writes are refused. It queues unfinished tasks of the store in their order and stores outstanding
cancellations. When it succeeds it says all of it, with the status in which each task was found, and wakes
the loop for the tasks it has queued. When it fails it says nothing, and nobody is left to say it. So all is
reported exactly if the recovery succeeds, or fails before it has done anything. -/
theorem recovery_reports_iff (c : Setup) (s : State) :
    let w := s.recover c
    let u := w.2.returns c s.calls.length
    ∃ (taken : List Record) (settled : List String),
      (∀ records, s.disk.listPending.1 = .ok records → taken.Sublist records) ∧
        w.2.queue = s.queue ++ taken.map (Queued.ofRecord c) ∧
        w.2.cancelling = settled.foldl List.erase s.cancelling ∧
        (∃ hs, w.2.history = hs ++ s.history ∧
          ∀ id ∈ settled, id ∈ s.cancelling ∧ .wrote id .cancelled "" ∈ hs) ∧
        (∀ n, w.1 = .ok n → n = taken.length ∧
          u.events = s.events ++
            (settled.map .cancelled ++ taken.map fun r => .recovered r.id r.status) ∧
          (u.wakeup = true ↔ s.wakeup = true ∨ taken ≠ [])) ∧
        (∀ e, w.1 = .error e → w.2.calls = s.calls ∧ u = w.2 ∧ u.events = s.events ∧
          u.wakeup = s.wakeup) ∧
        (Reported s u taken settled ↔ (∃ n, w.1 = .ok n) ∨ taken = [] ∧ settled = []) := by
  intro w u
  obtain ⟨t, taken, settled, hsub, gathered, outcome⟩ := s.recover_gathers (c := c)
  obtain ⟨hs, history, -, stored⟩ := gathered.history
  have settles : ∀ id ∈ settled, id ∈ s.cancelling ∧ .wrote id .cancelled "" ∈ hs :=
    fun id hid => ⟨gathered.outstanding id hid, stored id hid⟩
  obtain ⟨calls, ht⟩ : ∃ calls, w.2 = { t with calls } :=
    outcome.elim (fun ok => ⟨_, ok.2⟩) fun refused => ⟨t.calls, refused.2⟩
  refine ⟨taken, settled, hsub, (congrArg State.queue ht).trans gathered.queue,
    (congrArg State.cancelling ht).trans gathered.cancelling,
    ⟨hs, (congrArg State.history ht).trans history, settles⟩, ?_⟩
  rcases outcome with ⟨hok, leaves⟩ | ⟨⟨e, herror⟩, leaves⟩
  · have hu : u.events = s.events ++ accountEvents taken settled ∧
        (u.wakeup = true ↔ s.wakeup = true ∨ taken ≠ []) := gathered.returned leaves
    refine ⟨?_, ?_, ?_⟩
    · intro n hn
      rw [show w.1 = _ from hok] at hn
      cases hn
      exact ⟨rfl, hu⟩
    · intro e he
      rw [show w.1 = _ from hok] at he
      cases he
    · exact iff_of_true (reported_of_events hu.1 fun some => hu.2.mpr (Or.inr some)) (Or.inl ⟨_, hok⟩)
  · have calls : w.2.calls = s.calls := (congrArg State.calls leaves).trans gathered.calls
    have hu : u = w.2 := returns_of_calls calls
    have events : u.events = s.events := by
      rw [hu]
      exact (congrArg State.events leaves).trans gathered.events
    refine ⟨?_, ?_, ?_⟩
    · intro n hn
      rw [show w.1 = _ from herror] at hn
      cases hn
    · intro _ _
      refine ⟨calls, hu, events, ?_⟩
      rw [hu]
      exact (congrArg State.wakeup leaves).trans gathered.wakeup
    · constructor
      · exact fun reported => Or.inr (eq_nil_of_reported events reported)
      · rintro (⟨n, hn⟩ | ⟨rfl, rfl⟩)
        · rw [show w.1 = _ from herror] at hn
          cases hn
        · exact ⟨by simp, by simp, by simp⟩

/-- The loop waits for work; the store has a pending task and a younger one that was running, and will
refuse one write. -/
def halfRecoveredRun : List Move :=
  [.start, .loop .go, .loop .permit, .loop .go, .loop .go, .putRecord (.new "a" "mem" [] "film" 1),
    .putRecord { Record.new "b" "mem" [] "song" 2 with status := .running },
    .outage (.update .pending) (.times 1)]

/-- A task is queued by a recovery that fails after it: when the call has returned no event says so, and
the loop sleeps on with a free permit. -/
theorem recovered_task_unreported :
    let c := Setup.small 0
    let s := (State.init c {}).run c halfRecoveredRun
    ∃ e t, s.recover c = (.error e, t) ∧ s.queue = [] ∧ t.queue.map Queued.id = ["a"] ∧
      let u := t.returns c s.calls.length
      .recovered "a" .pending ∉ u.events ∧ u.calls = [] ∧ u.loop = .idle ∧ u.free = 1 ∧
        u.wakeup = false := by
  intro c s
  have listing : s.disk.listPending = (.ok [.new "a" "mem" [] "film" 1,
      { Record.new "b" "mem" [] "song" 2 with status := .running }], s.disk) :=
    (Disk.listPending_of_sorted rfl (by decide +kernel)).trans (by decide +kernel)
  obtain ⟨e, refused⟩ := recover_of_refused (c := c) listing (by decide +kernel)
  exact ⟨e, _, refused, by decide +kernel⟩

end State

end Scheduler

end Courier
