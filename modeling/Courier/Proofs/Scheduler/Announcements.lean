/-
# Courier.Proofs.Scheduler.Announcements -- nothing is said of an end that is not stored

Three parties see how a task ends: the store, the audit trail, and the operators. A worker or a caller
serves them in this order and outside the queue lock, so between any two of them anything may happen to
the record. Here is why they still agree.

* `Backed`: whoever owes the report of an end has seen the store take just that status, with just that
  text, so the write stands before the report in the history.
* `Store.Tells`: no act but a deletion takes from a record what a stored end has put there.
* `Announced`: a message to the operators is counted against the event that calls for it. The two are
  steps of one worker, one right after the other, and for that moment the message is due.

`State.durable_before_reported` puts them together for every run, whatever the store refuses. A message
names its task by the title only. That the title is that of the record is part of the result.
-/
import Courier.Proofs.Scheduler.Outcomes
import Courier.Proofs.Scheduler.Reports

namespace Courier

/-- The text that is stored together with the end that the event reports. -/
def Event.errorText : Event → String
  | .failed _ failure => failure.text
  | _ => ""

/-- What the operators are told of the event, if anything; the title is that of its task. -/
@[simp] def Event.notice? (title : String) : Event → Option Notice
  | .completed .. => some (.taskSucceeded title)
  | .failed _ failure => some (.taskFailed title failure.text)
  | _ => none

theorem Event.errorText_of_ne_failed {e : Event} {status : Status} (ends : e.endStatus? = some status)
    (other : status ≠ .failed) : e.errorText = "" := by
  cases e with
  | failed id failure => exact absurd (Option.some.inj ends).symm other
  | _ => rfl

/-- The text of the message contains both. -/
def Notice.Says (n : Notice) (title error : String) : Prop :=
  title.toList <:+: n.text.toList ∧ error.toList <:+: n.text.toList

/-- A message names its task, and that of a failure says why. -/
theorem Event.says_of_notice? {e : Event} {title : String} {n : Notice}
    (called : e.notice? title = some n) : n.Says title e.errorText := by
  cases e with
  | completed id bytes millis =>
    obtain rfl := Option.some.inj called
    have none : (Event.completed id bytes millis).errorText.toList = [] := String.toList_empty
    rw [Notice.Says, Notice.text_taskSucceeded, none, String.toList_append]
    exact ⟨(List.suffix_append _ _).isInfix, List.nil_infix⟩
  | failed id failure =>
    obtain rfl := Option.some.inj called
    rw [Notice.Says, Notice.text_taskFailed]
    simp only [String.toList_append]
    refine ⟨?_, (List.suffix_append _ _).isInfix⟩
    rw [List.append_assoc]
    exact List.infix_append ..
  | _ => cases called

namespace Notifier

/-- The texts that one recipient is sent. -/
def textsTo (n : Notifier) (recipient : Int) (notices : List Notice) : List String :=
  (notices.flatMap n.deliveries).filterMap fun d => if d.1 = recipient then some d.2 else none

/-- With a gateway, everybody who is configured gets every message once. -/
theorem textsTo_eq (recipients : List Int) (recipient : Int) (notices : List Notice) :
    (Notifier.mk true recipients).textsTo recipient notices =
      notices.flatMap fun n => List.replicate (recipients.count recipient) n.text := by
  have addressed (text : String) (rs : List Int) :
      ((rs.map fun r => (r, text)).filterMap fun d => if d.1 = recipient then some d.2 else none) =
        List.replicate (rs.count recipient) text := by
    induction rs with
    | nil => rfl
    | cons r rs ih =>
      by_cases hr : r = recipient
      · simp [hr, ih, List.replicate_succ]
      · simp [hr, ih]
  unfold textsTo
  rw [List.filterMap_flatMap]
  congr 1
  funext n
  cases recipients with
  | nil => rfl
  | cons r rs => exact addressed n.text (r :: rs)

/-- Who is configured once gets every message once. -/
theorem textsTo_of_nodup {recipients : List Int} {recipient : Int} (distinct : recipients.Nodup)
    (configured : recipient ∈ recipients) (notices : List Notice) :
    (Notifier.mk true recipients).textsTo recipient notices = notices.map Notice.text := by
  rw [textsTo_eq, List.count_eq_one_of_mem distinct configured]
  exact List.flatMap_pure_eq_map ..

end Notifier

namespace Store

/-- The record says that the task has ended so. Only a failure comes with a text. -/
def Tells (s : Store) (id : String) (status : Status) (error : String) : Prop :=
  ∃ r, s.get id = .ok r ∧ r.status = status ∧ r.error = if status = .failed then error else ""

theorem Tells.row {s : Store} {id : String} {status : Status} {error : String}
    (h : s.Tells id status error) : id ∈ s.ids ∧ s.status? id = some status := by
  obtain ⟨r, read, hstatus, -⟩ := h
  have stored := row?_of_get read
  refine ⟨mem_ids_of_row? stored, ?_⟩
  rw [status?_eq, stored]
  exact congrArg some hstatus

theorem Tells.congr {s t : Store} {id : String} {status : Status} {error : String}
    (h : s.Tells id status error) (same : t.row? id = s.row? id) : t.Tells id status error := by
  unfold Tells
  rw [get_congr h.row.1 same]
  exact h

/-- These are the titles of the tasks in the store. -/
def TitledBy (s : Store) (titles : String → String) : Prop :=
  ∀ id title, s.title? id = some title → titles id = title

end Store

namespace Scheduler

/-- The message that a worker is about to send. -/
def Worker.dueNotice? (w : Worker) : Option Notice :=
  match w.phase with
  | .effects (.announce n :: _) => some n
  | _ => none

@[simp] def Worker.isDue (n : Notice) (w : Worker) : Bool := w.dueNotice? = some n

namespace Happening

@[simp] def announces (n : Notice) : Happening → Bool
  | .announced m => m = n
  | _ => false

/-- Is this a report that the operators are to be told of in these words? -/
@[simp] def callsFor (titles : String → String) (n : Notice) : Happening → Bool
  | .reported e => e.notice? (titles e.taskId) = some n
  | _ => false

end Happening

variable {c : Setup} {E : Edits} {kept : Store} {l l' : Ledger} {id : String} {status : Status}

/-! ## Writes before reports -/

/-- The end that the event reports, if it reports one, has been written. -/
def Written (hs : List Happening) (e : Event) : Prop :=
  ∀ status, e.endStatus? = some status → .wrote e.taskId status e.errorText ∈ hs

theorem Written.mono {hs ks : List Happening} {e : Event} (h : Written hs e) (sub : hs ⊆ ks) : Written ks e :=
  fun status ends => sub (h status ends)

namespace Ledger

/-- What is reported of an end, and what is still to be, has been written. -/
structure Backed (l : Ledger) : Prop where
  owed : ∀ e, l.Owes e → Written l.history e
  /-- A late cancellation is stored, and somewhat later it is owed. -/
  clearing : ∀ w ∈ l.workers, w.phase = .clearing → .wrote w.task.id .cancelled "" ∈ l.history
  reported : ∀ hs e ts, l.history = hs ++ .reported e :: ts → Written ts e

namespace Backed

theorem init (c : Setup) (disk : Disk) : (State.init c disk).ledger.Backed where
  owed := by
    rintro e (⟨es, hes, -⟩ | ⟨w, hw, -⟩)
    · cases hes
    · cases hw
  clearing := by simp [State.ledger, State.init]
  reported := by
    intro hs e ts history
    have empty : [] = hs ++ .reported e :: ts := history
    simp at empty

theorem owed_step (h : l.Backed) (act : Act c E l l') : ∀ e, l'.Owes e → Written l'.history e := by
  obtain ⟨hs, history⟩ := act.history
  have older : l.history ⊆ l'.history := history ▸ List.subset_append_right hs l.history
  intro e owes
  rcases act.incurs owes with before | incurs
  · exact (h.owed e before).mono older
  · intro status ends
    cases incurs with
    | completed id bytes millis wrote => cases ends; exact wrote
    | failed id failure wrote => cases ends; exact wrote
    | cancelled id wrote => cases ends; exact wrote
    | cleared w here phase => cases ends; exact older (h.clearing w here phase)
    | interrupted | recovered => cases ends

theorem clearing_step (h : l.Backed) (numbered : l.Numbered) (act : Act c E l l') :
    ∀ v ∈ l'.workers, v.phase = .clearing → .wrote v.task.id .cancelled "" ∈ l'.history := by
  obtain ⟨hs, history⟩ := act.history
  have older : l.history ⊆ l'.history := history ▸ List.subset_append_right hs l.history
  intro v hv clears
  rcases (numbered.origin act hv).of_clearing clears with ⟨w, heir, before⟩ | ⟨-, noted⟩
  · rw [← heir.task]
    exact older (h.clearing w heir.here before)
  · exact noted

/-- What is reported now was owed before, so it had been written. -/
theorem reported_step (h : l.Backed) (act : Act c E l l') :
    ∀ hs e ts, l'.history = hs ++ .reported e :: ts → Written ts e := by
  intro hs e ts split
  have before : Written l.history e := by
    have reported : .reported e ∈ l'.history := split ▸ List.mem_append_right _ List.mem_cons_self
    rcases act.reported reported with before | owes | atOnce
    · obtain ⟨ks, us, split⟩ := List.append_of_mem before
      have older : us ⊆ l.history := by
        rw [split]
        exact fun x hx => List.mem_append_right _ (List.mem_cons_of_mem _ hx)
      exact (h.reported ks e us split).mono older
    · exact h.owed e owes
    · intro status ends
      cases e with
      | submitted | started | retryScheduled => cases ends
      | _ => cases atOnce
  obtain ⟨new, history⟩ := act.history
  -- The report is a new one and follows all of the old history, or it stands in that history.
  rw [history] at split
  rcases List.append_eq_append_iff.mp split with ⟨mid, rfl, old⟩ | ⟨mid, rfl, rest⟩
  · exact h.reported mid e ts old
  · cases mid with
    | nil => exact h.reported [] e ts rest.symm
    | cons x mid =>
      obtain ⟨-, rfl⟩ := List.cons.inj rest
      exact before.mono (List.subset_append_right mid l.history)

theorem step (h : l.Backed) (numbered : l.Numbered) (act : Act c E l l') : l'.Backed where
  owed := h.owed_step act
  clearing := h.clearing_step numbered act
  reported := h.reported_step act

end Backed

/-! ## Records after writes -/

theorem Writes.tells {error : String} {store : Store} (h : l.Writes id status error store) :
    store.Tells id status error := by
  obtain ⟨now, h⟩ := h
  exact Store.get_updateStatus h

namespace Agrees

/-- The text of a failure is written only to the record of a task that is running. -/
theorem running_of_failed (h : l.Agrees) {hs : List Happening} {error : String}
    (noted : ∀ x ∈ hs, Noted l l' x) (wrote : .wrote id .failed error ∈ hs) :
    l.store.status? id = some .running := by
  generalize failed : Status.failed = status at wrote
  cases noted _ wrote with
  | outward x outward => cases outward
  | stored x status cases known after => rcases cases with rfl | rfl | rfl <;> cases failed
  | ended w e attempt here phase =>
    cases e with
    | failed failure => exact h.status_of_holds here (by rw [phase]; rfl) (by rw [phase]; rfl)
    | completed | cancelled | retry | lateCancel => cases failed

/-- A record keeps what it says of an end. -/
theorem tells_step (h : l.Agrees) (act : Act c .additions l l') {error : String}
    (terminal : status.isTerminal = true) (before : l.store.Tells id status error) :
    l'.store.Tells id status error := by
  obtain ⟨known, stored⟩ := before.row
  have after := h.terminal_step act terminal stored
  rcases act.store_cases with same | ⟨r, new, put⟩ | ⟨x, status', error', writes, hs, history, wrote⟩
  · exact same.symm ▸ before
  · have hne : id ≠ r.id := fun heq => new.1 (heq ▸ known)
    refine before.congr ?_
    rw [Store.row?_put put, if_neg hne]
  · by_cases hx : id = x
    · subst hx
      obtain rfl : status' = status := Option.some.inj (writes.status?_self.symm.trans after)
      obtain ⟨r, read, hstatus, herror⟩ := writes.tells
      refine ⟨r, read, hstatus, herror.trans ?_⟩
      by_cases failed : status' = .failed
      · -- The task would be running.
        subst failed
        obtain ⟨ks, history', noted⟩ := act.noted
        obtain rfl : ks = hs := List.append_cancel_right (history'.symm.trans history)
        have running := h.running_of_failed noted wrote
        rw [stored] at running
        cases running
      · rw [if_neg failed, if_neg failed]
    · refine before.congr ?_
      obtain ⟨now, update⟩ := writes
      rw [Store.row?_updateStatus update]
      simp [hx]

end Agrees

/-! ## Titles -/

theorem title?_step (act : Act c .additions l l') {title : String} (before : l.store.title? id = some title) :
    l'.store.title? id = some title := by
  rcases act.store_cases with same | ⟨r, new, put⟩ | ⟨x, status, error, ⟨now, update⟩, -⟩
  · exact same.symm ▸ before
  · have hne : id ≠ r.id := fun heq => new.1 (heq ▸ Store.mem_ids_of_title? before)
    rw [Store.title?_put put, if_neg hne, before]
  · rw [Store.title?_updateStatus update, before]

theorem title?_acts (acts : Acts c .additions l l') {title : String}
    (before : l.store.title? id = some title) : l'.store.title? id = some title :=
  acts.preserves (P := fun l => l.store.title? id = some title) (fun _ _ h act => title?_step act h) before

/-- Where an entry of the queue comes from: it has been there, it is read from a record, or a worker
brings it back. -/
theorem queue_cases (act : Act c E l l') {t : Queued} (ht : t ∈ l'.queue) :
    t ∈ l.queue ∨ (l.store.Keyed → l'.store.title? t.id = some t.title) ∨
      ∃ w ∈ l.workers, t.id = w.task.id ∧ t.title = w.task.title := by
  have entered {q : Queued} (ht : t ∈ l.queue ++ [q]) : t ∈ l.queue ∨ t = q :=
    (List.mem_append.mp ht).imp_right List.mem_singleton.mp
  cases act with
  | submit r store new pending put =>
    refine (entered ht).imp_right ?_
    rintro rfl
    exact Or.inl fun _ => (Store.title?_put put r.id).trans (if_pos rfl)
  | takePending r notHeld notRunning notQueued pending listed =>
    refine (entered ht).imp_right ?_
    rintro rfl
    exact Or.inl fun keyed => Store.title?_of_row? (listed keyed)
  | takeRunning r store notHeld notRunning notQueued running listed writes =>
    refine (entered ht).imp_right ?_
    rintro rfl
    obtain ⟨now, update⟩ := writes
    exact Or.inl fun keyed =>
      (Store.title?_updateStatus update r.id).trans (Store.title?_of_row? (listed keyed))
  | requeue w failure remaining here =>
    refine (entered ht).imp_right ?_
    rintro rfl
    exact Or.inr ⟨w, here, rfl, rfl⟩
  | withdraw => exact Or.inl (List.mem_of_mem_eraseP ht)
  | claim task rest store head => exact Or.inl (head ▸ List.mem_cons_of_mem task ht)
  | _ => exact Or.inl ht

/-- Whoever has the task has it under the title of its record. -/
structure Titled (l : Ledger) : Prop where
  queue : ∀ t ∈ l.queue, l.store.title? t.id = some t.title
  workers : ∀ w ∈ l.workers, l.store.title? w.task.id = some w.task.title

theorem Titled.step (h : l.Titled) (numbered : l.Numbered) (keyed : l.store.Keyed)
    (act : Act c .additions l l') : l'.Titled where
  queue := by
    intro t ht
    rcases queue_cases act ht with old | read | ⟨w, here, hid, htitle⟩
    · exact title?_step act (h.queue t old)
    · exact read keyed
    · rw [hid, htitle]
      exact title?_step act (h.workers w here)
  workers := by
    intro v hv
    rcases (numbered.origin act hv).heir_or_claimed with ⟨w, heir⟩ | ⟨-, -, t, ht, htask⟩
    · rw [← heir.task]
      exact title?_step act (h.workers w heir.here)
    · rw [htask]
      exact title?_step act (h.queue t ht)

/-! ## Messages and the events that call for them -/

/-- How often a message is due. -/
def due (l : Ledger) (n : Notice) : Nat := l.tally fun w => (w.isDue n).toNat

/-- What the events call for has been sent or is due, and nothing else has, so far as this message is
concerned. -/
def Announced (titles : String → String) (n : Notice) (l : Ledger) : Prop :=
  l.history.countP (Happening.announces n) + l.due n = l.history.countP (Happening.callsFor titles n)

theorem tally_eq_of_filter {f : Worker → Nat} {p : Worker → Bool} {ws : List Worker}
    (none : ∀ w ∈ ws, p w = false → f w = 0) : ((ws.filter p).map f).sum = (ws.map f).sum := by
  induction ws with
  | nil => rfl
  | cons w ws ih =>
    have ih := ih fun w hw => none w (List.mem_cons_of_mem _ hw)
    cases hp : p w with
    | true => rw [List.filter_cons_of_pos hp, List.map_cons, List.map_cons, List.sum_cons, List.sum_cons, ih]
    | false =>
      rw [List.filter_cons_of_neg (by simp [hp]), List.map_cons, List.sum_cons, ih,
        none w List.mem_cons_self hp, Nat.zero_add]

namespace Announced

variable {titles : String → String} {n : Notice}

theorem of_balance (h : l.Announced titles n) (hs : List Happening) (history : l'.history = hs ++ l.history)
    (balance : hs.countP (Happening.announces n) + l'.due n =
      l.due n + hs.countP (Happening.callsFor titles n)) : l'.Announced titles n := by
  unfold Announced at h ⊢
  rw [history, List.countP_append, List.countP_append]
  omega

/-- An act that says nothing to the operators. -/
theorem of_silent (h : l.Announced titles n) (hs : List Happening) (history : l'.history = hs ++ l.history)
    (silent : hs.countP (Happening.announces n) = 0 ∧ hs.countP (Happening.callsFor titles n) = 0)
    (due : l'.due n = l.due n) : l'.Announced titles n := by
  refine h.of_balance hs history ?_
  omega

/-- What a worker does. -/
theorem of_worker (h : l.Announced titles n) (hs : List Happening) (history : l'.history = hs ++ l.history)
    (nodup : (l.workers.map Worker.seq).Nodup) {w : Worker} (here : w ∈ l.workers) {g : Worker → Worker}
    (workers : l'.workers = l.workers.map fun x => if x.seq = w.seq then g x else x)
    (balance : hs.countP (Happening.announces n) + ((g w).isDue n).toNat =
      (w.isDue n).toNat + hs.countP (Happening.callsFor titles n)) : l'.Announced titles n := by
  have htally := tally_setWorker nodup here g fun w => (w.isDue n).toNat
  refine h.of_balance hs history ?_
  unfold due tally
  rw [workers]
  omega

/-- A worker goes from one thing that it does not say to another. -/
theorem of_silent_worker (h : l.Announced titles n) (hs : List Happening)
    (history : l'.history = hs ++ l.history) (nodup : (l.workers.map Worker.seq).Nodup) {w : Worker}
    (here : w ∈ l.workers) {g : Worker → Worker}
    (workers : l'.workers = l.workers.map fun x => if x.seq = w.seq then g x else x)
    (silent : hs.countP (Happening.announces n) = 0 ∧ hs.countP (Happening.callsFor titles n) = 0)
    (before : w.isDue n = false) (after : (g w).isDue n = false) : l'.Announced titles n := by
  refine h.of_worker hs history nodup here workers ?_
  rw [silent.1, silent.2, before, after]
  rfl

end Announced

end Ledger

open Ledger

/-- Only with an outcome in hand may a worker have something to say. -/
theorem Worker.not_isDue {w : Worker} (n : Notice) (none : ∀ es, w.phase = .effects es → es = []) :
    w.isDue n = false := by
  cases hp : w.phase with
  | effects es => simp [dueNotice?, hp, none es hp]
  | _ => simp [dueNotice?, hp]

/-- What a caller has to do the operators are not told of. -/
theorem Effect.silent_of_ofCaller {e : Effect} (may : e.ofCaller = true) (titles : String → String)
    (n : Notice) : e.happenings.countP (Happening.announces n) = 0 ∧
      e.happenings.countP (Happening.callsFor titles n) = 0 := by
  cases e with
  | announce m => cases may
  | wake => exact ⟨rfl, rfl⟩
  | report e =>
    cases e with
    | cancelled | recovered => exact ⟨rfl, rfl⟩
    | _ => cases may

/-- One step of an outcome keeps the balance, if the worker knows the task by its title. -/
theorem Worker.Outcome.balance {w : Worker} {e : Effect} {es : List Effect} {titles : String → String}
    (outcome : w.Outcome (e :: es)) (title : titles w.task.id = w.task.title) (n : Notice) :
    e.happenings.countP (Happening.announces n) + (({ w with phase := .effects es } : Worker).isDue n).toNat =
      (({ w with phase := .effects (e :: es) } : Worker).isDue n).toNat +
        e.happenings.countP (Happening.callsFor titles n) := by
  cases outcome with
  | requeued => rfl
  | interrupted => rfl
  | cancelled => rfl
  | completed bytes millis =>
    simp [Effect.happenings, dueNotice?, Event.taskId, title, List.countP_cons, Bool.toNat]
  | failed failure =>
    simp [Effect.happenings, dueNotice?, Event.taskId, title, List.countP_cons, Bool.toNat]
  | announcing m => simp [Effect.happenings, dueNotice?, List.countP_cons, Bool.toNat]

/-- Every act keeps the balance. -/
theorem Ledger.Announced.step {titles : String → String} {n : Notice} (h : l.Announced titles n)
    (numbered : l.Numbered) (accountable : l.Accountable)
    (title : ∀ w ∈ l.workers, titles w.task.id = w.task.title) (act : Act c E l l') :
    l'.Announced titles n := by
  have nodup := numbered.seqs_nodup
  have gone {p : Worker → Bool} {g : Worker → Worker} (workers : l'.workers = (l.workers.filter p).map g)
      (same : ∀ w, (g w).isDue n = w.isDue n) (none : ∀ w ∈ l.workers, p w = false → w.isDue n = false) :
      l'.due n = l.due n := by
    unfold due tally
    rw [workers, List.map_map]
    refine (congrArg List.sum (List.map_congr_left fun w _ => congrArg Bool.toNat (same w))).trans ?_
    exact tally_eq_of_filter fun w hw out => congrArg Bool.toNat (none w hw out)
  have waits {w : Worker} (waits : w.phase.waits = true) : w.isDue n = false := by
    refine Worker.not_isDue n fun es reports => ?_
    rw [reports] at waits
    cases waits
  -- Nothing is said but by a worker that carries out an outcome. All others keep what they have to say,
  -- and those that go have nothing.
  cases act with
  | edit | arrive | breakOff | callReturn => exact h.of_silent [] rfl ⟨rfl, rfl⟩ (tally_of_eq _ rfl)
  | submit | withdraw =>
    exact h.of_silent [_, _, _] rfl ⟨rfl, rfl⟩ (tally_of_eq _ rfl)
  | retell | storeCancel | takePending => exact h.of_silent [_] rfl ⟨rfl, rfl⟩ (tally_of_eq _ rfl)
  | takeRunning => exact h.of_silent [_, _] rfl ⟨rfl, rfl⟩ (tally_of_eq _ rfl)
  | tell r found first =>
    refine h.of_silent [_] rfl ⟨rfl, rfl⟩ (tally_of_map rfl fun w => ?_)
    split <;> rfl
  | callEffect call e es next =>
    have may := accountable.calls _ (List.mem_of_getElem? next) e List.mem_cons_self
    exact h.of_silent e.happenings rfl (Effect.silent_of_ofCaller may titles n) (tally_of_eq _ rfl)
  | stopAll =>
    exact h.of_silent [] rfl ⟨rfl, rfl⟩ (tally_of_map (g := fun w => { w with told := true }) rfl fun _ => rfl)
  | giveUpAll =>
    exact h.of_silent [] rfl ⟨rfl, rfl⟩ (gone rfl (fun _ => rfl) fun w _ out => waits (by simpa using out))
  | vanish w here ended =>
    refine h.of_silent [] rfl ⟨rfl, rfl⟩ (gone (g := id) (List.map_id _).symm (fun _ => rfl) fun v hv out => ?_)
    have hseq : v.seq = w.seq := by simpa using out
    obtain rfl := numbered.worker_eq hv here hseq
    rcases ended with ended | ⟨-, ended⟩
    · exact Worker.not_isDue n fun es reports => (Phase.effects.inj (ended.symm.trans reports)).symm
    · exact waits ended
  | claim task rest store head =>
    refine h.of_silent [_, _] rfl ⟨rfl, rfl⟩ ?_
    simp [due, tally, Worker.dueNotice?]
  | start w now here phase =>
    refine h.of_silent_worker [_] rfl nodup here rfl ⟨rfl, rfl⟩ ?_ ?_
    · simp [Worker.dueNotice?, phase]
    · rcases openingPhase_cases c w.task with ⟨failure, -, hp⟩ | ⟨t, hp⟩ <;> simp [Worker.dueNotice?, hp]
  | advance w p hs here next =>
    refine h.of_silent_worker hs rfl nodup here (g := fun x => { x with phase := p }) rfl ?_ ?_ ?_
    · cases next <;> exact ⟨rfl, rfl⟩
    · exact Worker.not_isDue n fun es reports => absurd reports (next.phase_ne_effects es)
    · refine Worker.not_isDue n fun es reports => ?_
      obtain rfl : p = .effects es := reports
      exact next.outcome_nil
  | finish w e attempt store here phase releases =>
    refine h.of_silent_worker [_, _] rfl nodup here
      (g := fun x => { x with phase := storedStatusPhase w.task e }) rfl ⟨rfl, rfl⟩ ?_ ?_
    · simp [Worker.dueNotice?, phase]
    · cases e <;> simp [Worker.dueNotice?, storedStatusPhase]
  | handBack w failure remaining attempt store here phase =>
    refine h.of_silent_worker [_] rfl nodup here
      (g := fun x => { x with phase := .requeueing failure remaining }) rfl ⟨rfl, rfl⟩ ?_ ?_ <;>
      simp [Worker.dueNotice?, phase]
  | lateStore w attempt store here phase =>
    refine h.of_silent_worker [_] rfl nodup here (g := fun x => { x with phase := .clearing }) rfl
      ⟨rfl, rfl⟩ ?_ ?_ <;>
      simp [Worker.dueNotice?, phase]
  | letGo w es here phase reports =>
    refine h.of_silent_worker [_, _] rfl nodup here (g := fun x => { x with phase := .effects es }) rfl
      ⟨rfl, rfl⟩ ?_ ?_
    · rcases phase with phase | phase <;> simp [Worker.dueNotice?, phase]
    · rcases reports with ⟨-, rfl⟩ | rfl <;> simp [Worker.dueNotice?]
  | requeue w failure remaining here phase =>
    refine h.of_silent_worker [_, _, _] rfl nodup here
      (g := fun x => { x with phase := .effects [.wake] }) rfl ⟨rfl, rfl⟩ ?_ ?_ <;>
      simp [Worker.dueNotice?, phase]
  | holdBack w failure remaining here phase =>
    refine h.of_silent_worker [_] rfl nodup here
      (g := fun x => { x with phase := .writing .lateCancel 1 }) rfl ⟨rfl, rfl⟩ ?_ ?_ <;>
      simp [Worker.dueNotice?, phase]
  | clear w here phase =>
    refine h.of_silent_worker [] rfl nodup here
      (g := fun x => { x with phase := .effects [.report (.cancelled w.task.id)] }) rfl ⟨rfl, rfl⟩ ?_ ?_ <;>
      simp [Worker.dueNotice?, phase]
  | workerEffect w e es here phase =>
    have balance := (accountable.outcomes w here _ phase).balance (title w here) n
    rw [← phase] at balance
    exact h.of_worker e.happenings rfl nodup here (g := fun x => { x with phase := .effects es }) rfl balance

/-! ## The invariant -/

namespace Ledger

/-- What the store, the audit trail and the operators know of each other. -/
structure Accounted (l : Ledger) : Prop extends l.Agrees where
  accountable : l.Accountable
  backed : l.Backed
  titled : l.Titled
  told : ∀ id status error, .wrote id status error ∈ l.history → status.isTerminal = true →
    l.store.Tells id status error
  announced : ∀ titles, l.store.TitledBy titles → ∀ n, l.Announced titles n

namespace Accounted

theorem init (c : Setup) {disk : Disk} (keyed : disk.store.Keyed) : (State.init c disk).ledger.Accounted where
  toAgrees := .init c keyed
  accountable := .init c disk
  backed := .init c disk
  titled := { queue := by simp [State.ledger, State.init], workers := by simp [State.ledger, State.init] }
  told := nofun
  announced := fun _ _ _ => rfl

theorem told_step (h : l.Accounted) (act : Act c .additions l l') (id : String) (status : Status)
    (error : String) (wrote : .wrote id status error ∈ l'.history) (terminal : status.isTerminal = true) :
    l'.store.Tells id status error := by
  obtain ⟨hs, history, noted⟩ := act.noted
  rw [history] at wrote
  rcases List.mem_append.mp wrote with new | old
  · cases noted _ new with
    | outward x outward => cases outward
    | ended w e attempt here phase known after writes => exact writes.tells
    | stored x status cases known after writes =>
      refine (writes.resolve_left ?_).tells
      rintro rfl
      cases terminal
  · exact h.tells_step act terminal (h.told id status error old terminal)

theorem step (h : l.Accounted) (act : Act c .additions l l') : l'.Accounted where
  toAgrees := h.toAgrees.step act
  accountable := h.accountable.step h.numbered act
  backed := h.backed.step h.numbered act
  titled := h.titled.step h.numbered h.keyed act
  told := h.told_step act
  announced := by
    intro titles fits n
    have before : l.store.TitledBy titles := fun id title stored => fits id title (title?_step act stored)
    refine (h.announced titles before n).step h.numbered h.accountable (fun w hw => ?_) act
    exact before _ _ (h.titled.workers w hw)

theorem acts (h : l.Accounted) (acts : Acts c .additions l l') : l'.Accounted :=
  acts.preserves (fun _ _ h act => h.step act) h

/-- The report of an end is what its record says. -/
theorem tells_of_reported (h : l.Accounted) {e : Event} (reported : .reported e ∈ l.history)
    (ends : e.endStatus? = some status) : l.store.Tells e.taskId status e.errorText := by
  obtain ⟨hs, ts, split⟩ := List.append_of_mem reported
  have wrote : .wrote e.taskId status e.errorText ∈ l.history := by
    rw [split]
    exact List.mem_append_right _ (List.mem_cons_of_mem _ (h.backed.reported hs e ts split status ends))
  refine h.told _ _ _ wrote ?_
  cases e <;> cases ends <;> rfl

end Accounted

end Ledger

namespace State

/-! ## Runs -/

/-- What the operators have been told so far, the first message first. -/
def announcements (s : State) : List Notice :=
  s.history.reverse.filterMap fun
    | .announced n => some n
    | _ => none

/-- What workers are about to tell them. -/
def dueNotices (s : State) : List Notice := s.workers.filterMap Worker.dueNotice?

/-- Over a run the kept store comes to have the title of every task that there has been. -/
theorem titled_run {s : State} {ms : List Move} (run : s.Tidy c ms)
    (keeps : Store.Keeps (brought ms) kept s.disk.store) :
    ∃ kept', Store.Keeps [] kept' (s.run c ms).disk.store ∧
      Acts c .additions (s.ledger.over kept) ((s.run c ms).ledger.over kept') ∧
      ∀ xs ys, ms = xs ++ ys → ∀ id title,
        (s.run c xs).disk.store.title? id = some title → kept'.title? id = some title := by
  have stored {s : State} {coming : List String} {kept : Store}
      (keeps : Store.Keeps coming kept s.disk.store) {id title : String}
      (h : s.disk.store.title? id = some title) : kept.title? id = some title := by
    rw [Store.title?, keeps.row id (Store.mem_ids_of_title? h)]
    exact h
  induction ms generalizing s kept with
  | nil =>
    refine ⟨kept, keeps, .refl, ?_⟩
    intro xs ys split id title h
    obtain ⟨rfl, -⟩ := List.append_eq_nil_iff.mp split.symm
    exact stored keeps h
  | cons m ms ih =>
    obtain ⟨kept', keeps', first⟩ := over_step run keeps
    obtain ⟨kept'', keeps'', rest, titles⟩ := ih run.tail keeps'
    have acts := first.trans rest
    refine ⟨kept'', keeps'', acts, ?_⟩
    intro xs ys split id title h
    cases xs with
    | nil => exact title?_acts acts (stored keeps h)
    | cons x xs =>
      obtain ⟨rfl, tail⟩ := List.cons.inj split
      exact titles xs ys tail id title h

theorem count_dueNotices (s : State) (n : Notice) : s.dueNotices.count n = s.ledger.due n := by
  unfold dueNotices Ledger.due Ledger.tally
  show (s.workers.filterMap Worker.dueNotice?).count n = (s.workers.map fun w => (w.isDue n).toNat).sum
  induction s.workers with
  | nil => rfl
  | cons w ws ih =>
    rw [List.map_cons, List.sum_cons, ← ih, List.filterMap_cons]
    cases hdue : w.dueNotice? with
    | none => simp [hdue]
    | some m => by_cases hm : m = n <;> simp [hdue, hm, Nat.add_comm]

theorem count_announcements (s : State) (n : Notice) :
    s.announcements.count n = s.history.countP (Happening.announces n) := by
  unfold announcements
  rw [List.count, List.countP_filterMap, List.countP_reverse]
  apply List.countP_congr
  intro x _
  cases x <;> simp

theorem count_called (s : State) (titles : String → String) (n : Notice) :
    (s.events.filterMap fun e => e.notice? (titles e.taskId)).count n =
      s.history.countP (Happening.callsFor titles n) := by
  unfold events
  rw [List.count, List.countP_filterMap, List.countP_filterMap, List.countP_reverse]
  apply List.countP_congr
  intro x _
  cases x with
  | reported e => cases e <;> simp
  | _ => simp

/-- Every message is one that an event calls for. -/
theorem announcements_perm {s : State} {titles : String → String}
    (announced : ∀ n, s.ledger.Announced titles n) :
    (s.announcements ++ s.dueNotices).Perm (s.events.filterMap fun e => e.notice? (titles e.taskId)) := by
  rw [List.perm_iff_count]
  intro n
  rw [List.count_append, count_announcements, count_dueNotices, count_called]
  exact announced n

/-- Durable before reported, over every run in which an id names one task for good, whatever the store
refuses and whichever records are deleted.

* The report of an end follows a write of just that status for that id, one that the store has taken.
* From its report on, and so at that very moment, every read of the record gives that status, with the
  text of the failure, unless the record is deleted.
* The messages to the operators, sent and due, are those that the reports of completions and failures
  call for, one for each report. The text of each contains the title of the record and, of a failure, the
  text that is stored.
* A recipient is sent the text of each of them as often as it is configured: once, if the recipients
  are distinct. -/
theorem durable_before_reported (c : Setup) (disk : Disk) (keyed : disk.store.Keyed) (ms : List Move)
    (run : (State.init c disk).Tidy c ms) :
    let s := (State.init c disk).run c ms
    (∀ hs e ts status, s.history = hs ++ .reported e :: ts → e.endStatus? = some status →
        .wrote e.taskId status e.errorText ∈ ts) ∧
      (∀ e ∈ s.events, ∀ status, e.endStatus? = some status → e.taskId ∈ s.disk.store.ids →
        ∃ r, s.disk.store.get e.taskId = .ok r ∧ r.status = status ∧ r.error = e.errorText) ∧
      (∃ titles : String → String,
        (∀ xs ys, ms = xs ++ ys → ((State.init c disk).run c xs).disk.store.TitledBy titles) ∧
          (s.announcements ++ s.dueNotices).Perm
            (s.events.filterMap fun e => e.notice? (titles e.taskId)) ∧
          ∀ e ∈ s.events, ∀ n, e.notice? (titles e.taskId) = some n →
            n.Says (titles e.taskId) e.errorText) ∧
      ∀ recipients recipient,
        (Notifier.mk true recipients).textsTo recipient s.announcements =
            (s.announcements.flatMap fun n => .replicate (recipients.count recipient) n.text) ∧
          (recipients.Nodup → recipient ∈ recipients →
            (Notifier.mk true recipients).textsTo recipient s.announcements =
              s.announcements.map Notice.text) := by
  intro s
  obtain ⟨kept, keeps, acts, titles⟩ :=
    titled_run run (.refl (brought ms) keyed : Store.Keeps _ disk.store _)
  have accounted : (s.ledger.over kept).Accounted := (Accounted.init c keyed).acts acts
  refine ⟨fun hs e ts status split => accounted.backed.reported hs e ts split status, ?_, ?_, ?_⟩
  · intro e he status ends known
    obtain ⟨r, read, hstatus, herror⟩ := accounted.tells_of_reported (mem_events.mp he) ends
    refine ⟨r, (Store.get_congr known (keeps.row _ known)).symm.trans read, hstatus, herror.trans ?_⟩
    split
    · rfl
    · rename_i other
      exact (Event.errorText_of_ne_failed ends other).symm
  · have fits : kept.TitledBy fun id => (kept.title? id).getD "" := by
      intro id title stored
      show (kept.title? id).getD "" = title
      rw [stored, Option.getD_some]
    refine ⟨_, fun xs ys split id title stored => fits id title (titles xs ys split id title stored), ?_,
      fun e _ n called => Event.says_of_notice? called⟩
    exact announcements_perm (accounted.announced _ fits)
  · exact fun recipients recipient => ⟨Notifier.textsTo_eq recipients recipient s.announcements,
      fun distinct configured => Notifier.textsTo_of_nodup distinct configured s.announcements⟩

/-- A task fails for good, and its end is stored at the second try only. -/
def failingRun : List Move :=
  [.outage (.update .failed) (.times 1), .submit "a" "mem" (Transfer.encode ⟨"a", "out/a"⟩) "film",
    .start, .loop .go, .loop .permit, .loop .go, .loop .go, .worker 0 .go, .worker 0 .go,
    .worker 0 (.fetched (.error ⟨.network, "down"⟩)), .worker 0 .go, .worker 0 .go, .worker 0 .go,
    .worker 0 .go, .worker 0 .go, .worker 0 .go]

/-- What is reported and announced is read from the record. -/
theorem durable_before_reported_failure :
    let s := (State.init (Setup.small 0) {}).run (Setup.small 0) failingRun
    (State.init (Setup.small 0) {}).Tidy (Setup.small 0) failingRun ∧
      .failed "a" ⟨.network, "down"⟩ ∈ s.events ∧
      s.announcements = [.taskFailed "film" "network: down"] ∧
      (Notifier.mk true [7, 9]).textsTo 9 s.announcements = ["❌ Task failed: film\nError: network: down"] ∧
      ∃ r, s.disk.store.get "a" = .ok r ∧ r.status = .failed ∧ r.error = "network: down" := by
  have run : (State.init (Setup.small 0) {}).Tidy (Setup.small 0) failingRun := by decide +kernel
  have reported : .failed "a" ⟨.network, "down"⟩ ∈
      ((State.init (Setup.small 0) {}).run (Setup.small 0) failingRun).events := by decide +kernel
  have known : "a" ∈ ((State.init (Setup.small 0) {}).run (Setup.small 0) failingRun).disk.store.ids := by
    decide +kernel
  have announced : ((State.init (Setup.small 0) {}).run (Setup.small 0) failingRun).announcements =
      [.taskFailed "film" "network: down"] := by decide +kernel
  obtain ⟨-, stored, -, sent⟩ := durable_before_reported (Setup.small 0) {} List.nodup_nil failingRun run
  refine ⟨run, reported, announced, ?_, stored _ reported .failed rfl known⟩
  rw [(sent [7, 9] 9).2 (by decide) (by decide), announced]
  rfl

end State

end Scheduler

end Courier
