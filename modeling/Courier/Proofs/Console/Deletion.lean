/-
# Courier.Proofs.Console.Deletion -- a look, and then a deletion

An operator's deletion is two store operations: a look at the record, which stops at a running task, and the
deletion itself. The scheduler belongs to another process, and any number of its moves can come in between.

In the store a task becomes running by a claim and in no other way, and it stays so until another status is
stored. So what the deletion finds is settled by what has happened since the look (`ClaimedLast`): it removes a
running task exactly if the task was claimed in between and nothing has been stored of it since.
-/
import Courier.Console.Run
import Courier.Proofs.Scheduler.Cancellation

namespace Courier.Scheduler

/-! ## What is stored of a task -/

/-- The status that is stored of a task last in a stretch of history, the latest happening first. -/
def written? (id : String) (hs : List Happening) : Option Status :=
  hs.findSome? fun
    | .wrote x status _ => if x = id then some status else none
    | _ => none

/-- A stretch of history has a claim of the task in it, and no status is stored of it after that. -/
def ClaimedLast (id : String) (hs : List Happening) : Prop :=
  ∃ attempt later earlier, hs = later ++ .claimed id attempt :: earlier ∧
    ∀ status error, .wrote id status error ∉ later

/-- Is this about a status in the store? -/
def Happening.isStored : Happening → Bool
  | .wrote .. | .claimed .. => true
  | _ => false

variable {id : String} {hs : List Happening}

theorem written?_append (id : String) (hs hs' : List Happening) :
    written? id (hs ++ hs') = (written? id hs).or (written? id hs') :=
  List.findSome?_append

theorem written?_cons_wrote (id x : String) (status : Status) (error : String) (hs : List Happening) :
    written? id (.wrote x status error :: hs) = if x = id then some status else written? id hs := by
  simp only [written?, List.findSome?_cons]
  split <;> simp_all

theorem written?_eq_none : written? id hs = none ↔ ∀ status error, .wrote id status error ∉ hs := by
  simp only [written?, List.findSome?_eq_none_iff]
  constructor
  · intro h status error mem
    simpa using h _ mem
  · intro h x mem
    cases x with
    | wrote y status error =>
      by_cases same : y = id
      · subst same
        exact absurd mem (h status error)
      · simp [same]
    | _ => rfl

theorem claimedLast_append (id : String) (hs hs' : List Happening) :
    ClaimedLast id (hs ++ hs') ↔ ClaimedLast id hs ∨ written? id hs = none ∧ ClaimedLast id hs' := by
  constructor
  · rintro ⟨attempt, later, earlier, split, unwritten⟩
    rcases List.append_eq_append_iff.mp split with ⟨more, rfl, split'⟩ | ⟨more, rfl, split'⟩
    · refine .inr ⟨written?_eq_none.mpr fun status error mem => ?_, attempt, more, earlier, split', ?_⟩
      · exact unwritten status error (List.mem_append_left _ mem)
      · exact fun status error mem => unwritten status error (List.mem_append_right _ mem)
    · cases more with
      | nil => exact .inr ⟨written?_eq_none.mpr (by simpa using unwritten), attempt, [], earlier, split'.symm, by simp⟩
      | cons first more =>
        obtain ⟨rfl, -⟩ := List.cons.inj split'
        exact .inl ⟨attempt, later, more, rfl, unwritten⟩
  · rintro (⟨attempt, later, earlier, rfl, unwritten⟩ | ⟨none_, attempt, later, earlier, rfl, unwritten⟩)
    · exact ⟨attempt, later, earlier ++ hs', by simp, unwritten⟩
    · refine ⟨attempt, hs ++ later, earlier, by simp, fun status error mem => ?_⟩
      exact (List.mem_append.mp mem).elim (written?_eq_none.mp none_ status error) (unwritten status error)

theorem not_claimedLast (unclaimed : ∀ attempt, .claimed id attempt ∉ hs) : ¬ClaimedLast id hs := by
  rintro ⟨attempt, later, earlier, rfl, -⟩
  exact unclaimed attempt (by simp)

theorem written?_of_quiet (quiet : ∀ x ∈ hs, x.isStored = false) : written? id hs = none :=
  written?_eq_none.mpr fun status error mem => by cases quiet _ mem

/-! ## Stretches of history -/

/-- What has happened between two ledgers, and what it says of a task in the store. -/
structure Ledger.Recounts (id : String) (l l' : Ledger) (hs : List Happening) : Prop where
  history : l'.history = hs ++ l.history
  status : l'.store.status? id = (written? id hs).or (l.store.status? id)
  running : written? id hs = some .running ↔ ClaimedLast id hs

namespace Ledger.Recounts

variable {l l' l'' : Ledger}

theorem refl (id : String) (l : Ledger) : Recounts id l l [] where
  history := rfl
  status := rfl
  running := by simp [written?, ClaimedLast]

theorem trans {hs' : List Happening} (h : Recounts id l l' hs) (h' : Recounts id l' l'' hs') :
    Recounts id l l'' (hs' ++ hs) where
  history := by rw [h'.history, h.history, List.append_assoc]
  status := by rw [h'.status, h.status, written?_append, Option.or_assoc]
  running := by
    rw [written?_append, claimedLast_append, ← h.running, ← h'.running]
    cases written? id hs' <;> simp

/-- Nothing is stored of any task. -/
theorem of_quiet (history : l'.history = hs ++ l.history) (store : l'.store.status? id = l.store.status? id)
    (quiet : ∀ x ∈ hs, x.isStored = false) : Recounts id l l' hs where
  history := history
  status := by
    rw [written?_of_quiet quiet, store]
    rfl
  running := by
    have unclaimed : ¬ClaimedLast id hs := not_claimedLast fun attempt mem => by cases quiet _ mem
    simp [written?_of_quiet quiet, unclaimed]

/-- One status is stored, and no task is claimed. -/
theorem of_wrote {x : String} {status : Status} {error : String} (later earlier : List Happening)
    (history : l'.history = (later ++ .wrote x status error :: earlier) ++ l.history)
    (store : l'.store.status? id = if id = x then some status else l.store.status? id)
    (quiet : ∀ y ∈ later ++ earlier, y.isStored = false) (other : status ≠ .running) :
    Recounts id l l' (later ++ .wrote x status error :: earlier) := by
  have written : written? id (later ++ .wrote x status error :: earlier) = if x = id then some status else none := by
    rw [written?_append, written?_of_quiet fun y mem => quiet y (List.mem_append_left _ mem),
      written?_cons_wrote, written?_of_quiet fun y mem => quiet y (List.mem_append_right _ mem), Option.none_or]
  have unclaimed : ¬ClaimedLast id (later ++ .wrote x status error :: earlier) := by
    refine not_claimedLast fun attempt mem => ?_
    rcases List.mem_append.mp mem with mem | mem
    · cases quiet _ (List.mem_append_left _ mem)
    · cases mem with
      | tail _ mem => cases quiet _ (List.mem_append_right _ mem)
  refine ⟨history, ?_, ?_⟩
  · rw [written, store]
    by_cases same : x = id
    · rw [if_pos same, if_pos same.symm, Option.some_or]
    · rw [if_neg same, if_neg (Ne.symm same), Option.none_or]
  · rw [written]
    refine iff_of_false ?_ unclaimed
    split
    · exact fun same => other (Option.some.inj same)
    · exact nofun

/-- The task is claimed, or another one is. -/
theorem of_claimed {x : String} {attempt : Nat}
    (history : l'.history = [.claimed x attempt, .wrote x .running ""] ++ l.history)
    (store : l'.store.status? id = if id = x then some .running else l.store.status? id) :
    Recounts id l l' [.claimed x attempt, .wrote x .running ""] := by
  by_cases same : x = id
  · subst same
    have written : written? x [.claimed x attempt, .wrote x .running ""] = some .running := by simp [written?]
    refine ⟨history, ?_, iff_of_true written ⟨attempt, [], _, rfl, by simp⟩⟩
    rw [written, store, if_pos rfl, Option.some_or]
  · have written : written? id [.claimed x attempt, .wrote x .running ""] = none := by simp [written?, same]
    refine ⟨history, ?_, iff_of_false (by simp [written]) (not_claimedLast fun attempt => ?_)⟩
    · rw [written, store, if_neg (Ne.symm same), Option.none_or]
    · simp [Ne.symm same]

end Ledger.Recounts

/-! ## What a run says of a task -/

/-- Changes from outside that leave the status of a task alone. -/
def Edits.keepingStatus (id : String) : Edits := fun l store => store.status? id = l.store.status? id

variable {c : Setup} {l l' : Ledger}

theorem Happening.isStored_of_outward {x : Happening} (h : x.outward = true) : x.isStored = false := by
  cases x with
  | wrote | claimed => cases h
  | _ => rfl

theorem Act.recounts (act : Act c (.keepingStatus id) l l') : ∃ hs, Ledger.Recounts id l l' hs := by
  cases act with
  | edit store allowed => exact ⟨[], .of_quiet rfl allowed (by simp)⟩
  | submit r store new pending put =>
    exact ⟨_, .of_wrote [_, _] [] rfl (pending ▸ Store.status?_put put id) (by simp [Happening.isStored]) (by simp)⟩
  | withdraw x store queued writes =>
    exact ⟨_, .of_wrote [_, _] [] rfl (writes.status? id) (by simp [Happening.isStored]) (by simp)⟩
  | storeCancel x store outstanding writes =>
    exact ⟨_, .of_wrote [] [] rfl (writes.status? id) (by simp) (by simp)⟩
  | takeRunning r store notHeld notRunning notQueued running listed writes =>
    exact ⟨_, .of_wrote [_] [] rfl (writes.status? id) (by simp [Happening.isStored]) (by simp)⟩
  | claim task rest store head writes => exact ⟨_, .of_claimed rfl (writes.status? id)⟩
  | finish w e attempt store here phase releases writes =>
    refine ⟨_, .of_wrote [_] [] rfl (writes.status? id) (by simp [Happening.isStored]) ?_⟩
    cases e <;> simp [Ending.status]
  | handBack w failure remaining attempt store here phase writes =>
    exact ⟨_, .of_wrote [] [] rfl (writes.status? id) (by simp) (by simp)⟩
  | lateStore w attempt store here phase writes =>
    exact ⟨_, .of_wrote [] [] rfl (writes.status? id) (by simp) (by simp)⟩
  | callEffect call e =>
    exact ⟨_, .of_quiet rfl rfl fun x hx => Happening.isStored_of_outward (e.outward_happenings x hx)⟩
  | workerEffect w e =>
    exact ⟨_, .of_quiet rfl rfl fun x hx => Happening.isStored_of_outward (e.outward_happenings x hx)⟩
  | advance w p hs here next =>
    exact ⟨_, .of_quiet rfl rfl fun x hx => Happening.isStored_of_outward (next.outward x hx)⟩
  | tell | retell | takePending => exact ⟨[_], .of_quiet rfl rfl (by simp [Happening.isStored])⟩
  | start w now => exact ⟨[_], .of_quiet rfl rfl (by simp [Happening.isStored])⟩
  | letGo w es => exact ⟨[_, _], .of_quiet rfl rfl (by simp [Happening.isStored])⟩
  | requeue w failure remaining => exact ⟨[_, _, _], .of_quiet rfl rfl (by simp [Happening.isStored])⟩
  | holdBack w => exact ⟨[_], .of_quiet rfl rfl (by simp [Happening.isStored])⟩
  | _ => exact ⟨[], .of_quiet rfl rfl (by simp)⟩

theorem Acts.recounts (acts : Acts c (.keepingStatus id) l l') : ∃ hs, Ledger.Recounts id l l' hs := by
  induction acts with
  | refl => exact ⟨[], .refl id l⟩
  | tail _ act ih =>
    obtain ⟨hs, before⟩ := ih
    obtain ⟨hs', after⟩ := act.recounts
    exact ⟨hs' ++ hs, before.trans after⟩

/-- Nobody but the scheduler itself touches the record of the task. -/
def Move.Spares (id : String) : Move → Prop
  | .submit x .. | .deleteRecord x => x ≠ id
  | .putRecord r => r.id ≠ id
  | _ => True

instance (id : String) (m : Move) : Decidable (m.Spares id) :=
  match m with
  | .submit x .. => inferInstanceAs (Decidable (x ≠ id))
  | .deleteRecord x => inferInstanceAs (Decidable (x ≠ id))
  | .putRecord r => inferInstanceAs (Decidable (r.id ≠ id))
  | .cancel _ | .recover | .resume _ | .start | .shutdown | .loop _ | .worker .. | .link _ | .unwatch
  | .clock _ | .outage .. | .heal => .isTrue trivial

namespace State

variable {s : State}

theorem recounts_step {m : Move} (spares : m.Spares id) :
    ∃ hs, Ledger.Recounts id s.ledger (s.step c m).ledger hs := by
  rcases m.fresh_or_submit s with fresh | ⟨x, kind, payload, title, rfl⟩
  · refine (step_acts (s.step_act m ?_ ?_ ?_)).recounts
    · rintro x kind payload title rfl
      refine ⟨fresh, fun store put => (Store.status?_put put id).trans (if_neg ?_)⟩
      exact Ne.symm spares
    · rintro r store rfl put
      exact (Store.status?_put put id).trans (if_neg (Ne.symm spares))
    · rintro x rfl
      exact Store.status?_delete_of_ne (Ne.symm spares)
  · show ∃ hs, Ledger.Recounts id s.ledger (s.submit c x kind payload title).2.ledger hs
    rcases s.submit_cases (c := c) x kind payload title with ⟨e, disk, store, h⟩ | ⟨disk, put, h⟩ <;> rw [h]
    · exact ⟨[], .of_quiet rfl (congrArg (·.status? id) store) (by simp)⟩
    · exact ⟨_, .of_wrote [_, _] [] rfl (Store.status?_put put id) (by simp [Happening.isStored]) (by simp)⟩

theorem recounts_run {ms : List Move} (spares : ∀ m ∈ ms, m.Spares id) :
    Ledger.Recounts id s.ledger (s.run c ms).ledger (s.since (s.run c ms)) := by
  have ran : ∃ hs, Ledger.Recounts id s.ledger (s.run c ms).ledger hs := by
    induction ms generalizing s with
    | nil => exact ⟨[], .refl id _⟩
    | cons m ms ih =>
      obtain ⟨hs, first⟩ := recounts_step (s := s) (c := c) (spares m List.mem_cons_self)
      obtain ⟨hs', later⟩ := ih (s := s.step c m) fun m' mem => spares m' (List.mem_cons_of_mem _ mem)
      exact ⟨hs' ++ hs, first.trans later⟩
  obtain ⟨hs, recounted⟩ := ran
  exact since_eq recounted.history ▸ recounted

end State

end Courier.Scheduler

namespace Courier.Console

open Scheduler

/-! ## Deletions -/

theorem checkDeletable_eq_ok {s : Store} {id : String} (look : checkDeletable s id = .ok ()) :
    ∃ status, s.status? id = some status ∧ status ≠ .running := by
  unfold checkDeletable at look
  split at look
  · cases look
  · rename_i r found
    split at look
    · cases look
    · refine ⟨r.status, ?_, ‹_›⟩
      rw [Store.status?_eq, Store.row?_of_get found]
      rfl

/-- A deletion that is not interrupted removes no running task. -/
theorem delete_alone {freshId id : String} {now : Int} {s s' : Store} {lines : List String}
    (done : Command.run freshId now s (.delete id) = (.ok lines, s')) :
    ∃ status, s.status? id = some status ∧ status ≠ .running ∧ id ∉ s'.ids := by
  simp only [Command.run] at done
  split at done
  · cases done
  · rename_i look
    obtain ⟨status, found, idle⟩ := checkDeletable_eq_ok look
    have removed : (s.delete id).1 = .ok () → id ∉ (s.delete id).2.ids := Store.notMem_ids_delete
    split at done
    · cases done
    · rename_i deleted
      rw [deleted] at removed
      cases done
      exact ⟨status, found, idle, removed rfl⟩

/-- Between the look and the deletion the scheduler goes on, and nobody else touches the record. The record is still
there when it comes to the deletion; it is a running one if and only if the task was claimed in between and
nothing has been stored of it since; and a deletion that is carried out removes it. -/
theorem finds_running_iff (c : Setup) {s : State} {id : String} (look : checkDeletable s.disk.store id = .ok ())
    {window : List Move} (spares : ∀ m ∈ window, m.Spares id) :
    let t := s.run c window
    id ∈ t.disk.store.ids ∧
      (t.disk.store.status? id = some .running ↔
        ∃ attempt later earlier, s.since t = later ++ .claimed id attempt :: earlier ∧
          ∀ status error, .wrote id status error ∉ later) ∧
      ((t.disk.store.delete id).1 = .ok () → id ∉ (t.disk.store.delete id).2.ids) := by
  intro t
  have recounted : Ledger.Recounts id s.ledger t.ledger (s.since t) := State.recounts_run spares
  obtain ⟨before, found, idle⟩ := checkDeletable_eq_ok look
  have status : t.disk.store.status? id = (written? id (s.since t)).or (some before) :=
    recounted.status.trans (congrArg _ found)
  refine ⟨?_, ?_, Store.notMem_ids_delete⟩
  · cases written : written? id (s.since t) with
    | none => exact Store.mem_ids_of_status? (status.trans (by rw [written]; rfl))
    | some last => exact Store.mem_ids_of_status? (status.trans (by rw [written]; rfl))
  · rw [status]
    refine Iff.trans ?_ recounted.running
    cases written? id (s.since t) with
    | none => simpa using idle
    | some last => simp

/-- A task is queued. -/
def waiting : State := (State.init (Setup.small 0) {}).step (Setup.small 0) (.submit "a" "mem" [] "film")

/-- The task is cancelled in between, and the scheduler starts. -/
theorem finds_cancelled_task :
    let window : List Move := [.cancel "a", .start, .loop .go, .loop .permit, .loop .go, .loop .go]
    let t := waiting.run (Setup.small 0) window
    checkDeletable waiting.disk.store "a" = .ok () ∧ (∀ m ∈ window, m.Spares "a") ∧
      waiting.since t = [.accepted "a", .withdrawn "a", .wrote "a" .cancelled ""] ∧
      t.disk.store.status? "a" ≠ some .running := by
  intro window t
  have look : checkDeletable waiting.disk.store "a" = .ok () := by decide +kernel
  have spares : ∀ m ∈ window, m.Spares "a" := by decide +kernel
  have since : waiting.since t = [.accepted "a", .withdrawn "a", .wrote "a" .cancelled ""] := by decide +kernel
  refine ⟨look, spares, since, fun running => ?_⟩
  obtain ⟨attempt, later, earlier, split, -⟩ := (finds_running_iff (Setup.small 0) look spares).2.1.mp running
  have mem : .claimed "a" attempt ∈ waiting.since t := split ▸ by simp
  rw [since] at mem
  simp at mem

/-- The look finds a queued task, the scheduler claims it, and the deletion removes the record of a running
task. -/
theorem running_task_deleted :
    let t := waiting.run (Setup.small 0) [.start, .loop .go, .loop .permit, .loop .go, .loop .go]
    checkDeletable waiting.disk.store "a" = .ok () ∧ t.disk.store.status? "a" = some .running ∧
      t.runningViews.map View.id = ["a"] ∧ (t.disk.store.delete "a").1 = .ok () ∧
      (t.disk.store.delete "a").2.status? "a" = none := by
  decide +kernel

end Courier.Console
