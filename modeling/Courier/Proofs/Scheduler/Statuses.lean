/-
# Courier.Proofs.Scheduler.Statuses -- how a stored status may change

The store takes any status for any task. That a task goes from `pending` to `running` and from there to
an end or back, and never leaves an end, follows from who writes what in which state; `Agrees.passes`
has it for one act. Here it is carried to whole runs: `State.statuses` is what the record of a task has
said in the course of a run, repetitions left out, and each of its members `leadsTo` the next.

A run is looked at between its moves. Nothing is missed by that: a recovery writes to each record once
at most, every other move is one act, and `Moved.shown` says that what a move has written to a record is
what the record says after it.

Records may be deleted in the course of a run. A record that is gone says nothing more, and while it is
there it says what the kept one says, over which memory and store agree.
-/
import Courier.Proofs.Scheduler.Deletions
import Courier.Proofs.Scheduler.Recovery
import Mathlib.Data.List.Destutter

namespace Courier

/-- The changes of status that a scheduler makes. -/
def Status.leadsTo : Status → Status → Bool
  | .pending, .running | .pending, .cancelled => true
  | .running, .pending | .running, .completed | .running, .failed | .running, .cancelled => true
  | _, _ => false

/-- No way leads on from an end. -/
theorem Status.not_leadsTo_of_isTerminal {a : Status} (terminal : a.isTerminal = true) (b : Status) :
    ¬a.leadsTo b = true := by
  cases a <;> cases b <;> first | exact Bool.false_ne_true | cases terminal

namespace Scheduler

variable {c : Setup} {coming : List String} {kept : Store} {l l' : Ledger} {id : String}

/-! ## Repetitions -/

section Repetitions

variable {α : Type} [DecidableEq α] {R : α → α → Prop}

theorem head?_destutter' (a : α) (as : List α) : (as.destutter' (· ≠ ·) a).head? = some a := by
  induction as with
  | nil => rfl
  | cons b as ih =>
    rw [List.destutter'_cons]
    split
    · rfl
    · exact ih

theorem head?_destutter (as : List α) : (as.destutter (· ≠ ·)).head? = as.head? := by
  cases as with
  | nil => rfl
  | cons a as => exact head?_destutter' a as

theorem isChain_destutter' {a : α} {as : List α} (h : (a :: as).IsChain fun a b => a = b ∨ R a b) :
    (as.destutter' (· ≠ ·) a).IsChain R := by
  induction as generalizing a with
  | nil => exact List.isChain_singleton a
  | cons b as ih =>
    obtain ⟨hab, hrest⟩ := List.isChain_cons_cons.mp h
    rw [List.destutter'_cons]
    split
    · rename_i hne
      apply (ih hrest).cons
      intro y hy
      rw [head?_destutter'] at hy
      obtain rfl := Option.mem_some_iff.mp hy
      exact hab.resolve_left hne
    · rename_i heq
      obtain rfl : a = b := not_not.mp heq
      exact ih hrest

/-- Where neighbours are equal or related, they are related once repetitions are left out. -/
theorem isChain_destutter {as : List α} (h : as.IsChain fun a b => a = b ∨ R a b) :
    (as.destutter (· ≠ ·)).IsChain R := by
  cases as with
  | nil => exact .nil
  | cons a as => exact isChain_destutter' h

theorem mem_destutter' {x a : α} {as : List α} (h : x ∈ a :: as) : x ∈ as.destutter' (· ≠ ·) a := by
  induction as generalizing a with
  | nil => exact h
  | cons b as ih =>
    rw [List.destutter'_cons]
    split
    · rcases List.mem_cons.mp h with rfl | h
      · exact List.mem_cons_self
      · exact List.mem_cons_of_mem a (ih h)
    · rename_i heq
      obtain rfl : a = b := not_not.mp heq
      apply ih
      simpa using h

theorem mem_destutter {x : α} {as : List α} (h : x ∈ as) : x ∈ as.destutter (· ≠ ·) := by
  cases as with
  | nil => cases h
  | cons a as => exact mem_destutter' h

end Repetitions

/-- What is related to nothing comes last. -/
theorem getLast?_of_isChain {α : Type} {R : α → α → Prop} {as : List α} (h : as.IsChain R) {a : α}
    (ha : a ∈ as) (last : ∀ b, ¬R a b) : as.getLast? = some a := by
  induction as with
  | nil => cases ha
  | cons x as ih =>
    cases as with
    | nil =>
      obtain rfl := List.mem_singleton.mp ha
      rfl
    | cons y as =>
      obtain ⟨hxy, hrest⟩ := List.isChain_cons_cons.mp h
      rw [List.getLast?_cons_cons]
      apply ih hrest
      refine (List.mem_cons.mp ha).resolve_left ?_
      rintro rfl
      exact last y hxy

/-! ## One move -/

namespace Ledger

open Agrees (Passes)

theorem Agrees.Passes.leadsTo {a b : Status} (h : Passes (some a) (some b)) :
    a = b ∨ a.leadsTo b = true := by
  cases h with
  | same => exact Or.inl rfl
  | claimed | withdrawn | handedBack => exact Or.inr rfl
  | ended b terminal => cases b <;> first | exact Or.inr rfl | cases terminal

theorem Agrees.Passes.isSome {a : Status} {after : Option Status} (h : Passes (some a) after) :
    ∃ b, after = some b := by
  cases h <;> exact ⟨_, rfl⟩

/-- What a move does to the record of a task: its status stays or goes along the table, and it says
what has been written to it. -/
structure Moved (id : String) (l l' : Ledger) : Prop where
  passes : Passes (l.store.status? id) (l'.store.status? id)
  shown : ∃ hs, l'.history = hs ++ l.history ∧
    ∀ status error, .wrote id status error ∈ hs → l'.store.status? id = some status

/-- The record of the task is not touched. -/
structure Untouched (id : String) (l l' : Ledger) : Prop where
  status : l'.store.status? id = l.store.status? id
  silent : ∃ hs, l'.history = hs ++ l.history ∧ ∀ status error, .wrote id status error ∉ hs

theorem Moved.refl (id : String) (l : Ledger) : Moved id l l :=
  ⟨.same _, [], rfl, by simp⟩

theorem Moved.untouched {k : Ledger} (moved : Moved id l l') (after : Untouched id l' k) :
    Moved id l k := by
  obtain ⟨hs, history, shown⟩ := moved.shown
  obtain ⟨hs', history', silent⟩ := after.silent
  refine ⟨after.status ▸ moved.passes, hs' ++ hs, by rw [history', history, List.append_assoc], ?_⟩
  intro status error wrote
  rw [after.status]
  exact shown status error ((List.mem_append.mp wrote).resolve_left (silent status error))

theorem Untouched.moved {k : Ledger} (before : Untouched id l l') (moved : Moved id l' k) :
    Moved id l k := by
  obtain ⟨hs, history, silent⟩ := before.silent
  obtain ⟨hs', history', shown⟩ := moved.shown
  refine ⟨before.status ▸ moved.passes, hs' ++ hs, by rw [history', history, List.append_assoc], ?_⟩
  intro status error wrote
  exact shown status error ((List.mem_append.mp wrote).resolve_right (silent status error))

theorem Moved.of_act (keeps : Store.Keeps coming kept l.store) (h : (l.over kept).Agrees)
    (act : OneAct c (.coming coming) l l') (id : String) : Moved id l l' := by
  cases act with
  | refl => exact .refl id l
  | single act =>
    refine ⟨?_, ?_⟩
    · by_cases known : id ∈ l.store.ids
      · obtain ⟨kept', keeps', act'⟩ := act.over keeps
        rw [← (keeps.status known).2, ← (keeps'.status (mem_ids_of_coming act known)).2]
        exact h.passes act' id
      · -- If there is a record after the act it has just come, and any status may be its first.
        rw [Store.status?_of_notMem known]
        cases l'.store.status? id with
        | none => exact .same none
        | some status => exact .added status
    · obtain ⟨hs, history, noted⟩ := act.noted
      refine ⟨hs, history, ?_⟩
      intro status error wrote
      cases noted _ wrote with
      | outward x h => cases h
      | ended w e attempt here phase known after => exact after
      | stored x status cases known after => exact after

/-- A status that was there before a move leads to the one that is there after it. -/
theorem Moved.leadsTo (moved : Moved id l l') {a : Status} (before : l.store.status? id = some a) :
    ∃ b, l'.store.status? id = some b ∧ (a = b ∨ a.leadsTo b = true) := by
  have hpasses := moved.passes
  rw [before] at hpasses
  obtain ⟨b, hb⟩ := hpasses.isSome
  rw [hb] at hpasses
  exact ⟨b, hb, hpasses.leadsTo⟩

end Ledger

namespace State

open Ledger

/-- A recovery touches only what it has listed. -/
theorem recoverRecords_untouched {id : String} (records : List Record) (s : State) (done : Recovery)
    (notListed : id ∉ records.map Record.id) :
    Untouched id s.ledger (recoverRecords c records s done).2.ledger := by
  refine ⟨?_, ?_⟩
  · induction records generalizing s done with
    | nil => rfl
    | cons r records ih =>
      rw [List.map_cons, List.mem_cons, not_or] at notListed
      obtain ⟨hne, hrest⟩ := notListed
      have hframe := Store.status?_congr ((s.recoverRecord_frame (c := c) done r).2 id hne)
      unfold recoverRecords
      generalize hw : s.recoverRecord c done r = w at hframe
      obtain ⟨result, t⟩ := w
      cases result with
      | error e => exact hframe
      | ok next => exact (ih t next hrest).trans hframe
  · obtain ⟨hs, history, retrieved⟩ := recoverRecords_history (c := c) records s done
    refine ⟨hs, history, ?_⟩
    intro status error wrote
    obtain ⟨r, hr, retrieved⟩ := retrieved _ wrote
    cases retrieved with
    | wrote status => exact notListed (List.mem_map_of_mem hr)

/-- A recovery moves a record once at most. -/
theorem recoverRecords_moved (records : List Record) (s : State) (done : Recovery)
    (keeps : Store.Keeps coming kept s.disk.store) (h : (s.ledger.over kept).Agrees)
    (listed : s.Listed records) (id : String) :
    Moved id s.ledger (recoverRecords c records s done).2.ledger := by
  induction records generalizing s done kept with
  | nil => exact .refl id s.ledger
  | cons r records ih =>
    have hlisted : s.disk.store.row? r.id = some r.row :=
      (listed.2 keeps.keyed).2 r List.mem_cons_self
    obtain ⟨act, -⟩ := s.recoverRecord_act (c := c) (E := .coming coming) done r
      (listed.1 r List.mem_cons_self) fun _ => hlisted
    have htail := listed.tail (c := c) done
    -- Only the calls tell an open ledger from that of its state, and nothing here depends on them.
    have opened : ((s.opened done).over kept).Agrees := h.calls _
    have hmoved := Moved.of_act keeps opened act id
    obtain ⟨kept', keeps', act'⟩ := OneAct.over act keeps
    have hagrees := (opened.acts act'.to_reflTransGen).calls (s.recoverRecord c done r).2.calls
    have hsingle (hid : id ≠ r.id) : Untouched id s.ledger (recoverRecords c [r] s done).2.ledger :=
      recoverRecords_untouched [r] s done (by simpa using hid)
    obtain ⟨hr, hnodup⟩ := List.nodup_cons.mp (listed.2 keeps.keyed).1
    unfold recoverRecords at hsingle ⊢
    generalize hw : s.recoverRecord c done r = w at htail hmoved keeps' hagrees hsingle
    obtain ⟨result, t⟩ := w
    have hfirst : Moved id s.ledger t.ledger := ⟨hmoved.passes, hmoved.shown⟩
    cases result with
    | error e => exact hfirst
    | ok next =>
      by_cases hid : id = r.id
      · exact hfirst.untouched (recoverRecords_untouched records t next (hid ▸ hr))
      · exact (hsingle hid).moved (ih t next keeps' hagrees htail)

theorem recover_moved (s : State) (keeps : Store.Keeps coming kept s.disk.store)
    (h : (s.ledger.over kept).Agrees) (id : String) : Moved id s.ledger (s.recover c).2.ledger := by
  unfold recover
  generalize hlist : s.disk.listPending = w
  obtain ⟨result, disk⟩ := w
  have hstore : disk.store = s.disk.store := by
    rw [← s.disk.store_listPending, hlist]
  have hsame : ({ s with disk } : State).ledger = s.ledger := ledger_disk hstore
  cases result with
  | error e => exact hsame.symm ▸ .refl id s.ledger
  | ok records =>
    have hmoved := recoverRecords_moved (c := c) records { s with disk } {} (hstore.symm ▸ keeps)
      (hsame.symm ▸ h) (listed_of_listPending hlist) id
    rw [hsame] at hmoved
    simp only
    generalize recoverRecords c records { s with disk } {} = w at hmoved
    obtain ⟨result, t⟩ := w
    cases result with
    | error e => exact hmoved
    | ok done => exact ⟨hmoved.passes, hmoved.shown⟩

/-- A move leads the record of a task on, or deletes it for good. -/
theorem step_moved {s : State} {m : Move} {ms : List Move} (run : s.Tidy c (m :: ms))
    (keeps : Store.Keeps (brought (m :: ms)) kept s.disk.store) (h : (s.ledger.over kept).Agrees)
    (id : String) :
    Moved id s.ledger (s.step c m).ledger ∨
      id ∉ (s.step c m).disk.store.ids ∧ id ∉ brought ms ∧ (s.step c m).history = s.history := by
  rcases run.head with rfl | ⟨x, rfl, once⟩ | act
  · exact Or.inl (s.recover_moved keeps h id)
  · have quiet (same : (s.disk.store.delete x).2.status? id = s.disk.store.status? id) :
        Moved id s.ledger (s.step c (.deleteRecord x)).ledger :=
      ⟨same.symm ▸ .same _, [], rfl, by simp⟩
    by_cases hid : id = x
    · subst hid
      by_cases still : id ∈ (s.disk.store.delete id).2.ids
      · -- The deletion has failed.
        exact Or.inl (quiet (by rw [Store.delete_of_mem_ids still]))
      · exact Or.inr ⟨still, once, rfl⟩
    · exact Or.inl (quiet (Store.status?_delete_of_ne hid))
  · exact Or.inl (.of_act keeps h act id)

theorem agrees_step {s : State} {m : Move} {ms : List Move} (run : s.Tidy c (m :: ms))
    (keeps : Store.Keeps (brought (m :: ms)) kept s.disk.store) (h : (s.ledger.over kept).Agrees) :
    ∃ kept', Store.Keeps (brought ms) kept' (s.step c m).disk.store ∧
      ((s.step c m).ledger.over kept').Agrees := by
  obtain ⟨kept', keeps', acts⟩ := over_step run keeps
  exact ⟨kept', keeps', h.acts acts⟩

/-! ## Runs -/

/-- The states of a run, the one before its first move included. -/
def states (c : Setup) : State → List Move → List State
  | s, [] => [s]
  | s, m :: ms => s :: states c (s.step c m) ms

/-- What the record of a task says in the states of a run in which there is one. -/
def readings (c : Setup) (s : State) (ms : List Move) (id : String) : List Status :=
  (s.states c ms).filterMap fun t => t.disk.store.status? id

/-- The statuses that the record of a task goes through. -/
def statuses (c : Setup) (s : State) (ms : List Move) (id : String) : List Status :=
  (s.readings c ms id).destutter (· ≠ ·)

/-- A submission of the run has returned the id. -/
def Submits (c : Setup) (s : State) (ms : List Move) (id : String) : Prop :=
  ∃ xs kind payload title ys, ms = xs ++ .submit id kind payload title :: ys ∧
    ((s.run c xs).submit c id kind payload title).1 = .ok id

theorem readings_cons (s : State) (m : Move) (ms : List Move) (id : String) :
    s.readings c (m :: ms) id =
      (s.disk.store.status? id).toList ++ (s.step c m).readings c ms id := by
  simp only [readings, states, List.filterMap_cons]
  cases s.disk.store.status? id <;> rfl

theorem head?_readings {s : State} {id : String} {status : Status}
    (stored : s.disk.store.status? id = some status) (ms : List Move) :
    (s.readings c ms id).head? = some status := by
  cases ms <;> simp [readings, states, stored]

theorem readings_append (s : State) (xs : List Move) (m : Move) (ys : List Move) (id : String) :
    s.readings c (xs ++ m :: ys) id =
      s.readings c xs id ++ ((s.run c xs).step c m).readings c ys id := by
  induction xs generalizing s with
  | nil =>
    rw [List.nil_append, readings_cons]
    simp only [readings, states, List.filterMap_cons, List.filterMap_nil]
    cases s.disk.store.status? id <;> rfl
  | cons x xs ih =>
    rw [List.cons_append, readings_cons, readings_cons, ih, List.append_assoc]
    rfl

/-- Of a record that is not there and does not come nothing is read. -/
theorem readings_of_absent {s : State} {ms : List Move} (new : s.Follows c Move.New ms) {id : String}
    (unknown : id ∉ s.disk.store.ids) (apart : id ∉ brought ms) : s.readings c ms id = [] := by
  induction ms generalizing s with
  | nil => simp [readings, states, Store.status?_of_notMem unknown]
  | cons m ms ih =>
    have notNow : m.brings? ≠ some id := fun brings => apart (mem_brought List.mem_cons_self brings)
    have notLater : id ∉ brought ms := fun later => apart (brought_tail m ms later)
    have hrest := ih new.2 (notMem_ids_step new.1 unknown notNow) notLater
    rw [readings_cons, Store.status?_of_notMem unknown, hrest]
    rfl

/-- One reading leads to the next. -/
theorem isChain_readings {s : State} {ms : List Move} (run : s.Tidy c ms)
    (keeps : Store.Keeps (brought ms) kept s.disk.store) (h : (s.ledger.over kept).Agrees) (id : String) :
    (s.readings c ms id).IsChain fun a b => a = b ∨ a.leadsTo b = true := by
  -- The invariant is the agreement over the kept store, which is another one after each move.
  induction ms generalizing s kept with
  | nil =>
    simp only [readings, states, List.filterMap_cons, List.filterMap_nil]
    cases s.disk.store.status? id with
    | none => exact .nil
    | some status => exact List.isChain_singleton status
  | cons m ms ih =>
    obtain ⟨kept', keeps', agrees⟩ := agrees_step run keeps h
    have hrest := ih run.tail keeps' agrees
    rw [readings_cons]
    cases hstatus : s.disk.store.status? id with
    | none => exact hrest
    | some a =>
      rcases step_moved run keeps h id with moved | ⟨gone, apart, -⟩
      · obtain ⟨b, hb, leads⟩ := moved.leadsTo hstatus
        apply hrest.cons
        intro y hy
        rw [head?_readings hb] at hy
        obtain rfl := Option.mem_some_iff.mp hy
        exact leads
      · rw [readings_of_absent run.tail.new gone apart]
        exact List.isChain_singleton a

/-- Nothing is written that is not read. -/
theorem mem_readings_of_wrote {s : State} {ms : List Move} (run : s.Tidy c ms)
    (keeps : Store.Keeps (brought ms) kept s.disk.store) (h : (s.ledger.over kept).Agrees) {id : String}
    {status : Status} {error : String} (wrote : .wrote id status error ∈ (s.run c ms).history) :
    .wrote id status error ∈ s.history ∨ status ∈ s.readings c ms id := by
  induction ms generalizing s kept with
  | nil => exact Or.inl wrote
  | cons m ms ih =>
    obtain ⟨kept', keeps', agrees⟩ := agrees_step run keeps h
    rw [readings_cons, List.mem_append]
    rcases ih run.tail keeps' agrees wrote with wrote | read
    · rcases step_moved run keeps h id with moved | ⟨-, -, same⟩
      · obtain ⟨hs, history, shown⟩ := moved.shown
        have history : (s.step c m).history = hs ++ s.history := history
        rw [history] at wrote
        rcases List.mem_append.mp wrote with wrote | wrote
        · right; right
          exact List.mem_of_mem_head? (head?_readings (shown status error wrote) ms)
        · exact Or.inl wrote
      · exact Or.inl (same ▸ wrote)
    · exact Or.inr (Or.inr read)

/-- A record that comes is a first one: nothing was read under its id before. -/
theorem readings_of_brings {s : State} {xs : List Move} {m : Move} {ys : List Move}
    (run : s.Tidy c (xs ++ m :: ys)) (keeps : Store.Keeps (brought (xs ++ m :: ys)) kept s.disk.store)
    (h : (s.ledger.over kept).Agrees) {id : String} (brings : m.brings? = some id)
    (unknown : id ∉ (s.run c xs).disk.store.ids) : s.readings c xs id = [] := by
  induction xs generalizing s kept with
  | nil =>
    have unknown : id ∉ s.disk.store.ids := unknown
    simp [readings, states, Store.status?_of_notMem unknown]
  | cons x xs ih =>
    obtain ⟨kept', keeps', agrees⟩ := agrees_step run keeps h
    have hrest := ih run.tail keeps' agrees unknown
    rw [readings_cons, hrest]
    cases hstatus : s.disk.store.status? id with
    | none => rfl
    | some a =>
      rcases step_moved run keeps h id with moved | ⟨-, apart, -⟩
      · obtain ⟨b, hb, -⟩ := moved.leadsTo hstatus
        have hread := head?_readings (c := c) hb xs
        rw [hrest] at hread
        cases hread
      · exact absurd (mem_brought (List.mem_append_right xs List.mem_cons_self) brings) apart

/-- The first reading of a submitted task is `pending`. -/
theorem head?_readings_of_submits {s : State} {ms : List Move} (run : s.Tidy c ms)
    (keeps : Store.Keeps (brought ms) kept s.disk.store) (h : (s.ledger.over kept).Agrees) {id : String}
    (submitted : s.Submits c ms id) : (s.readings c ms id).head? = some .pending := by
  obtain ⟨xs, kind, payload, title, ys, rfl, accepted⟩ := submitted
  obtain ⟨-, new, -⟩ := Follows.append.mp run.new
  rw [readings_append, readings_of_brings run keeps h rfl (new id rfl).1, List.nil_append]
  exact head?_readings (status?_of_submit accepted) ys

/-- The statuses of a task, over every run in which an id names one task for good, whatever the store
refuses and whichever records are deleted: each leads to the next, everything that the scheduler writes
is among them, a submitted task starts as `pending`, and an end comes last. -/
theorem legal_status_histories (c : Setup) (disk : Disk) (keyed : disk.store.Keyed) (ms : List Move)
    (run : (State.init c disk).Tidy c ms) (id : String) :
    let s := State.init c disk
    (s.statuses c ms id).IsChain (fun a b => a.leadsTo b = true) ∧
      (∀ status error, .wrote id status error ∈ (s.run c ms).history →
        status ∈ s.statuses c ms id) ∧
      (s.Submits c ms id → (s.statuses c ms id).head? = some .pending) ∧
      ∀ status ∈ s.statuses c ms id, status.isTerminal = true →
        (s.statuses c ms id).getLast? = some status := by
  intro s
  have h : (s.ledger.over disk.store).Agrees := .init c keyed
  have keeps : Store.Keeps (brought ms) disk.store s.disk.store := .refl (brought ms) keyed
  have chain := isChain_destutter (isChain_readings run keeps h id)
  refine ⟨chain, ?_, ?_, ?_⟩
  · intro status error wrote
    rcases mem_readings_of_wrote run keeps h wrote with before | read
    · cases before
    · exact mem_destutter read
  · intro submitted
    exact (head?_destutter _).trans (head?_readings_of_submits run keeps h submitted)
  · intro status member terminal
    exact getLast?_of_isChain chain member (Status.not_leadsTo_of_isTerminal terminal)

/-- A first attempt fails for want of a network, a second one gets through, and the record is deleted. -/
def retriedRun : List Move :=
  [.submit "a" "mem" (Transfer.encode ⟨"a", "out/a"⟩) "film", .start, .loop .go, .loop .permit,
    .loop .go, .loop .go, .worker 0 .go, .worker 0 .go, .worker 0 (.fetched (.error ⟨.network, "down"⟩)),
    .worker 0 .go, .worker 0 .go, .worker 0 .go, .worker 0 .go, .worker 0 .go, .loop .go, .loop .permit,
    .loop .go, .loop .go, .worker 1 .go, .worker 1 .go, .worker 1 (.fetched (.ok ())),
    .worker 1 (.stored (.ok 1)), .worker 1 .go, .worker 1 .go, .worker 1 .go, .deleteRecord "a"]

/-- A retried task is `running` twice, and its end is the last that is read of it. -/
theorem legal_status_histories_retried :
    let s := State.init (Setup.small 1) {}
    s.Tidy (Setup.small 1) retriedRun ∧
      s.statuses (Setup.small 1) retriedRun "a" =
        [.pending, .running, .pending, .running, .completed] ∧
      (s.statuses (Setup.small 1) retriedRun "a").getLast? = some .completed := by
  have run : (State.init (Setup.small 1) {}).Tidy (Setup.small 1) retriedRun := by decide +kernel
  have statuses : (State.init (Setup.small 1) {}).statuses (Setup.small 1) retriedRun "a" =
      [.pending, .running, .pending, .running, .completed] := by decide +kernel
  obtain ⟨-, -, -, last⟩ := legal_status_histories (Setup.small 1) {} List.nodup_nil retriedRun run "a"
  exact ⟨run, statuses, last .completed (by rw [statuses]; decide) rfl⟩

end State

end Scheduler

end Courier
