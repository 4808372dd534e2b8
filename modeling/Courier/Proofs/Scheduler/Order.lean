/-
# Courier.Proofs.Scheduler.Order -- first come, first served

Tasks enter the queue at its end: when they are submitted, when a recovery finds them, and when their
worker puts them back. They leave it at its head by a claim, or from anywhere when they are cancelled. The
history is a log of all that. `Ledger.Passage` says what one act adds to the log, and it follows for every
run that the log without the cancelled entries is the claims followed by the queue.

The second half is about when claims are made. `State.Gated` describes the turns of the loop that lead to a
claim: a permit was free and taken, later the link was seen to be up, and the loop has claimed at its next
turn, whatever the others did in between and however long the loop had to wait for the permit.
-/
import Courier.Proofs.Scheduler.Gathering
import Courier.Proofs.Scheduler.Slots
import Mathlib.Data.List.Induction

namespace Courier.Scheduler

variable {c : Setup} {E : Edits} {l l' : Ledger}

/-! ## The log -/

namespace Happening

/-- The entries into the queue, the latest one first, without those that were cancelled in the queue. -/
def arrivals : List Happening → List String
  | [] => []
  | .enqueued id :: hs => id :: arrivals hs
  | .withdrawn id :: hs => (arrivals hs).erase id
  | _ :: hs => arrivals hs

def claim? : Happening → Option String
  | .claimed id _ => some id
  | _ => none

/-- The tasks that were claimed and have not been let go since, the one claimed first in front. -/
def inHand : List Happening → List String
  | [] => []
  | .claimed id _ :: hs => (inHand hs).filter (· ≠ id) ++ [id]
  | .released id :: hs => (inHand hs).filter (· ≠ id)
  | _ :: hs => inHand hs

theorem arrivals_of_outward {hs : List Happening} (outward : ∀ x ∈ hs, x.outward = true)
    (past : List Happening) : arrivals (hs ++ past) = arrivals past := by
  induction hs with
  | nil => rfl
  | cons x hs ih =>
    have hx := outward x List.mem_cons_self
    rw [← ih fun y hy => outward y (List.mem_cons_of_mem x hy)]
    cases x <;> first | rfl | cases hx

theorem inHand_of_outward {hs : List Happening} (outward : ∀ x ∈ hs, x.outward = true)
    (past : List Happening) : inHand (hs ++ past) = inHand past := by
  induction hs with
  | nil => rfl
  | cons x hs ih =>
    have hx := outward x List.mem_cons_self
    rw [← ih fun y hy => outward y (List.mem_cons_of_mem x hy)]
    cases x <;> first | rfl | cases hx

theorem claims_of_outward {hs : List Happening} (outward : ∀ x ∈ hs, x.outward = true) :
    hs.filterMap claim? = [] := by
  rw [List.filterMap_eq_nil_iff]
  intro x hx
  have := outward x hx
  cases x <;> first | rfl | cases this

end Happening

namespace Ledger

/-- The log of the queue, the latest entry first. -/
def arrivals (l : Ledger) : List String := Happening.arrivals l.history

/-- The tasks of the successful claims, the latest one first. -/
def claims (l : Ledger) : List String := l.history.filterMap Happening.claim?

/-- The running set has lost entries at most. -/
def Kept (l l' : Ledger) : Prop :=
  ∀ r ∈ l'.running, ∃ x ∈ l.running, x.id = r.id ∧ x.seq = r.seq

theorem Kept.of_sublist (h : l'.running.Sublist l.running) : Kept l l' :=
  fun r hr => ⟨r, h.subset hr, rfl, rfl⟩

/-- What an act means for the queue and its log. -/
inductive Passage (l l' : Ledger) : Prop
  | still (queue : l'.queuedIds = l.queuedIds) (arrivals : l'.arrivals = l.arrivals)
      (claims : l'.claims = l.claims) (next : l'.nextSeq = l.nextSeq) (kept : Kept l l')
  | entered (id : String) (queue : l'.queuedIds = l.queuedIds ++ [id])
      (arrivals : l'.arrivals = id :: l.arrivals) (claims : l'.claims = l.claims)
      (next : l'.nextSeq = l.nextSeq) (kept : Kept l l')
  | withdrawn (id : String) (queued : id ∈ l.queuedIds) (queue : l'.queuedIds = l.queuedIds.erase id)
      (arrivals : l'.arrivals = l.arrivals.erase id) (claims : l'.claims = l.claims)
      (next : l'.nextSeq = l.nextSeq) (kept : Kept l l')
  | claimed (id : String) (queue : l.queuedIds = id :: l'.queuedIds)
      (arrivals : l'.arrivals = l.arrivals) (claims : l'.claims = id :: l.claims)
      (next : l'.nextSeq = l.nextSeq + 1)
      (entries : ∀ r ∈ l'.running, (r ∈ l.running ∧ r.id ≠ id) ∨ r.id = id ∧ r.seq = l.nextSeq)

theorem Passage.of_outward {hs : List Happening} (history : l'.history = hs ++ l.history)
    (outward : ∀ x ∈ hs, x.outward = true) (queue : l'.queue = l.queue) (next : l'.nextSeq = l.nextSeq)
    (running : l'.running = l.running) : Passage l l' := by
  refine .still (congrArg (List.map Queued.id) queue) ?_ ?_ next (.of_sublist (running ▸ .refl _))
  · rw [arrivals, history, Happening.arrivals_of_outward outward]
    rfl
  · rw [claims, history, List.filterMap_append, Happening.claims_of_outward outward]
    rfl

end Ledger

open Ledger in
/-- Nothing enters or leaves the queue without being logged. -/
theorem Act.passage (act : Act c E l l') : Passage l l' := by
  have same : Kept l l := .of_sublist (.refl _)
  have enters (q : Queued) : (l.queue ++ [q]).map Queued.id = l.queuedIds ++ [q.id] := by
    simp [queuedIds]
  cases act with
  | submit r store new pending put => exact .entered r.id (enters _) rfl rfl rfl same
  | takePending r => exact .entered r.id (enters _) rfl rfl rfl same
  | takeRunning r store => exact .entered r.id (enters _) rfl rfl rfl same
  | withdraw id store queued =>
    exact .withdrawn id queued (erase_ids l.queue id).symm rfl rfl rfl same
  | tell r found first =>
    refine .still rfl rfl rfl rfl ?_
    intro x hx
    obtain ⟨y, hy, rfl⟩ := List.mem_map.mp hx
    refine ⟨y, hy, ?_, ?_⟩ <;> split <;> rfl
  | claim task rest store head =>
    refine .claimed task.id (by simp [queuedIds, head]) rfl rfl rfl ?_
    intro r hr
    rcases List.mem_append.mp hr with hr | hr
    · obtain ⟨hr, hne⟩ := List.mem_filter.mp hr
      exact Or.inl ⟨hr, of_decide_eq_true hne⟩
    · rw [List.mem_singleton.mp hr]
      exact Or.inr ⟨rfl, rfl⟩
  | callEffect call e => exact .of_outward rfl e.outward_happenings rfl rfl rfl
  | workerEffect w e => exact .of_outward rfl e.outward_happenings rfl rfl rfl
  | start w now =>
    have started : ∀ x ∈ [Happening.reported (.started w.task.id w.task.attempts)], x.outward = true := by
      simp [Happening.outward]
    exact .of_outward rfl started rfl rfl rfl
  | advance w p hs here next => exact .of_outward rfl next.outward rfl rfl rfl
  | requeue w failure remaining =>
    exact .entered w.task.id (enters _) rfl rfl rfl (.of_sublist List.filter_sublist)
  | finish | letGo | holdBack => exact .still rfl rfl rfl rfl (.of_sublist List.filter_sublist)
  | _ => exact .still rfl rfl rfl rfl same

open Ledger in
/-- The running set is what the history says was claimed and not let go. -/
theorem Act.inHand (act : Act c E l l') (h : l.runningIds = Happening.inHand l.history) :
    l'.runningIds = Happening.inHand l'.history := by
  have released (w : Worker) : (l.release w.task.id).runningIds =
      Happening.inHand (l.release w.task.id).history := by
    rw [runningIds_release, h]
    rfl
  cases act with
  | tell r found first => exact (map_id_tell _ _).trans h
  | claim task rest store head =>
    have entries : ((l.running.filter fun r => r.id ≠ task.id).map Running.id) ++ [task.id] =
        (Happening.inHand l.history).filter (· ≠ task.id) ++ [task.id] := by
      rw [← h, ← runningIds_release]
      rfl
    exact List.map_append.trans entries
  | callEffect call e => exact h.trans (Happening.inHand_of_outward e.outward_happenings _).symm
  | workerEffect w e => exact h.trans (Happening.inHand_of_outward e.outward_happenings _).symm
  | advance w p hs here next => exact h.trans (Happening.inHand_of_outward next.outward _).symm
  | finish w | letGo w | requeue w | holdBack w => exact released w
  | _ => exact h

namespace Ledger

/-! ## First come, first served -/

/-- The queue is what the claims have left of the log, and an entry of the running set is that of the last
claim of its task. -/
structure Ordered (l : Ledger) : Prop where
  log : l.arrivals = l.queuedIds.reverse ++ l.claims
  count : l.claims.length = l.nextSeq
  entries : ∀ r ∈ l.running, l.claims.reverse[r.seq]? = some r.id ∧
    r.id ∉ l.claims.reverse.drop (r.seq + 1)

theorem Ordered.of_kept (h : l.Ordered) (log : l'.arrivals = l'.queuedIds.reverse ++ l.claims)
    (claims : l'.claims = l.claims) (next : l'.nextSeq = l.nextSeq) (kept : Kept l l') : l'.Ordered := by
  refine ⟨claims ▸ log, by rw [claims, next, h.count], ?_⟩
  intro r hr
  obtain ⟨x, hx, hid, hseq⟩ := kept r hr
  rw [claims, ← hid, ← hseq]
  exact h.entries x hx

/-- Cancelled in the queue, an entry is at the same place in both. -/
theorem erase_queued {queued claims : List String} {id : String} (nodup : queued.Nodup)
    (mem : id ∈ queued) : (queued.reverse ++ claims).erase id = (queued.erase id).reverse ++ claims := by
  rw [List.erase_append_left _ (List.mem_reverse.mpr mem), (List.nodup_reverse.mpr nodup).erase_eq_filter,
    nodup.erase_eq_filter, List.filter_reverse]

theorem Ordered.step (h : l.Ordered) (nodup : l.queuedIds.Nodup) (act : Act c E l l') : l'.Ordered := by
  cases act.passage with
  | still queue arrivals claims next kept =>
    refine h.of_kept ?_ claims next kept
    rw [arrivals, queue]
    exact h.log
  | entered id queue arrivals claims next kept =>
    refine h.of_kept ?_ claims next kept
    rw [arrivals, queue, h.log, List.reverse_append]
    rfl
  | withdrawn id queued queue arrivals claims next kept =>
    refine h.of_kept ?_ claims next kept
    rw [arrivals, queue, h.log, erase_queued nodup queued]
  | claimed id queue arrivals claims next entries =>
    refine ⟨?_, ?_, ?_⟩
    · rw [arrivals, claims, h.log, queue, List.reverse_cons, List.append_assoc]
      rfl
    · rw [claims, next, List.length_cons, h.count]
    · have count : l.claims.reverse.length = l.nextSeq := by rw [List.length_reverse, h.count]
      intro r hr
      rw [claims, List.reverse_cons]
      rcases entries r hr with ⟨hr, hne⟩ | ⟨rfl, hseq⟩
      · obtain ⟨place, last⟩ := h.entries r hr
        obtain ⟨below, -⟩ := List.getElem?_eq_some_iff.mp place
        refine ⟨by rw [List.getElem?_append_left below, place], ?_⟩
        rw [List.drop_append_of_le_length below, List.mem_append, List.mem_singleton]
        exact fun later => later.elim last hne
      · refine ⟨?_, ?_⟩
        · rw [hseq, ← count, List.getElem?_concat_length]
        · rw [List.drop_eq_nil_of_le (by rw [List.length_append, count, hseq]; exact Nat.le_refl _)]
          exact List.not_mem_nil

theorem Ordered.init (c : Setup) (disk : Disk) : (State.init c disk).ledger.Ordered where
  log := rfl
  count := rfl
  entries := by simp [State.ledger, State.init]

theorem Ordered.acts (h : l.Ordered) (owned : l.Owned) (acts : Acts c E l l') : l'.Ordered :=
  (acts.preserves (P := fun l => l.Owned ∧ l.Ordered)
    (fun _ _ h act => ⟨h.1.step act, h.2.step h.1.queuedIds_nodup act⟩) ⟨owned, h⟩).2

end Ledger

namespace State

variable {s t : State}

/-- The log of the queue: every entry into it, without those that were cancelled in it. -/
def arrivals (s : State) : List String := (Happening.arrivals s.history).reverse

/-- The tasks of the successful claims, in their order. -/
def claimed (s : State) : List String := (s.history.filterMap Happening.claim?).reverse

theorem arrivals_eq (h : s.ledger.Ordered) : s.arrivals = s.claimed ++ s.ledger.queuedIds := by
  have log : Happening.arrivals s.history =
      s.ledger.queuedIds.reverse ++ s.history.filterMap Happening.claim? := h.log
  rw [arrivals, log, List.reverse_append, List.reverse_reverse]
  rfl

/-- The running tasks according to the history. -/
def inHand (s : State) : List String := Happening.inHand s.history

theorem length_claimed (h : s.ledger.Ordered) : s.claimed.length = s.nextSeq := by
  rw [claimed, List.length_reverse]
  exact h.count

/-- Claims are never forgotten, so without a new number there is no new claim. -/
theorem claimed_eq_of_next (h : s.ledger.Ordered) (h' : t.ledger.Ordered)
    (acts : Acts c E s.ledger t.ledger) (next : t.nextSeq = s.nextSeq) : t.claimed = s.claimed := by
  obtain ⟨hs, history⟩ : ∃ hs, t.history = hs ++ s.history := acts.history
  have longer : t.claimed = s.claimed ++ (hs.filterMap Happening.claim?).reverse := by
    rw [claimed, history, List.filterMap_append, List.reverse_append]
    rfl
  have lengths := congrArg List.length longer
  rw [length_claimed h', next, List.length_append, length_claimed h] at lengths
  have none : (hs.filterMap Happening.claim?).reverse = [] := List.eq_nil_of_length_eq_zero (by omega)
  rw [longer, none, List.append_nil]

/-! ## Claims -/

/-- A claim takes the head of the queue, or nothing has changed but what the disk remembers of its
outages. -/
theorem claimNext_cases (s : State) :
    (s.claimNext.1 = .task ∧ ∃ task rest, s.queue = task :: rest ∧ s.claimNext.2.queue = rest ∧
        s.claimNext.2.claimed = s.claimed ++ [task.id]) ∨
      s.claimNext.1 ≠ .task ∧
        ∃ disk, s.claimNext.2 = { s with disk } ∧ disk.store = s.disk.store := by
  unfold claimNext
  split
  · exact Or.inr ⟨nofun, s.disk, rfl, rfl⟩
  · rename_i task rest head
    rcases s.writeStatus_cases task.id .running "" with ⟨disk, hw, -⟩ | ⟨e, disk, hw, hstore, -⟩ <;> rw [hw]
    · exact Or.inl ⟨rfl, task, rest, head, rfl, List.reverse_cons⟩
    · exact Or.inr ⟨nofun, disk, rfl, hstore⟩

/-- How the loop comes to hold a permit, to have seen the link up, and to claim. -/
theorem stepLoop_cases (s : State) (turn : Turn) :
    ((s.stepLoop turn).loop = .holding →
        s.loop = .holding ∨ turn = .permit ∧ s.loop = .acquiring ∧ 0 < s.free) ∧
      ((s.stepLoop turn).loop = .claiming →
        s.loop = .claiming ∨ turn = .go ∧ s.loop = .holding ∧ s.link = .connected) ∧
      ((s.stepLoop turn).claimed = s.claimed ∨ turn = .go ∧ s.loop = .claiming ∧
        ∃ task rest, s.queue = task :: rest ∧ (s.stepLoop turn).queue = rest ∧
          (s.stepLoop turn).claimed = s.claimed ++ [task.id]) := by
  unfold stepLoop
  split
  case h_3 hloop =>
    split
    · rename_i hfree
      exact ⟨fun _ => Or.inr ⟨rfl, hloop, hfree⟩, nofun, Or.inl rfl⟩
    · exact ⟨Or.inl, Or.inl, Or.inl rfl⟩
  case h_4 hloop =>
    split
    · rename_i hlink
      exact ⟨nofun, fun _ => Or.inr ⟨rfl, hloop, hlink⟩, Or.inl rfl⟩
    · exact ⟨nofun, nofun, Or.inl rfl⟩
  case h_5 hloop =>
    rcases s.claimNext_cases with ⟨hclaim, task, rest, head, hqueue, hclaimed⟩ | ⟨hclaim, disk, hstate, -⟩
    · generalize s.claimNext = r at hclaim hqueue hclaimed
      obtain ⟨_, t⟩ := r
      subst hclaim
      exact ⟨nofun, nofun, Or.inr ⟨rfl, hloop, task, rest, head, hqueue, hclaimed⟩⟩
    · generalize s.claimNext = r at hclaim hstate
      obtain ⟨result, t⟩ := r
      have hstate : t = { s with disk } := hstate
      subst hstate
      cases result with
      | task => exact absurd rfl hclaim
      | empty | storeFailed => exact ⟨nofun, nofun, Or.inl rfl⟩
  case h_1 =>
    refine ⟨fun h => ?_, fun h => ?_, Or.inl rfl⟩ <;>
      · revert h
        show (if s.link = .connected then Loop.acquiring else .paused) = _ → _
        split <;> nofun
  -- The other turns lead elsewhere, or nowhere.
  all_goals first
    | exact ⟨Or.inl, Or.inl, Or.inl rfl⟩
    | exact ⟨nofun, nofun, Or.inl rfl⟩
    | split
      · exact ⟨nofun, nofun, Or.inl rfl⟩
      · exact ⟨Or.inl, Or.inl, Or.inl rfl⟩

/-- What others do changes nothing about it. -/
theorem step_toward (s : State) (m : Move) :
    ((s.step c m).loop = .holding →
        s.loop = .holding ∨ m = .loop .permit ∧ s.loop = .acquiring ∧ 0 < s.free) ∧
      ((s.step c m).loop = .claiming →
        s.loop = .claiming ∨ m = .loop .go ∧ s.loop = .holding ∧ s.link = .connected) := by
  by_cases turns : ∃ turn, m = .loop turn
  · obtain ⟨turn, rfl⟩ := turns
    obtain ⟨holds, claims, -⟩ := s.stepLoop_cases turn
    refine ⟨fun h => (holds h).imp id ?_, fun h => (claims h).imp id ?_⟩
    · rintro ⟨rfl, rest⟩
      exact ⟨rfl, rest⟩
    · rintro ⟨rfl, rest⟩
      exact ⟨rfl, rest⟩
  · by_cases starts : m = .start
    · subst starts
      show ((s.start).loop = _ → _) ∧ ((s.start).loop = _ → _)
      unfold start
      split
      · exact ⟨nofun, nofun⟩
      · exact ⟨Or.inl, Or.inl⟩
    · obtain ⟨same, -⟩ := (s.step_apart (c := c) (fun turn h => turns ⟨turn, h⟩) starts).loop_next
      rw [same]
      exact ⟨Or.inl, Or.inl⟩

/-! ## The gate -/

/-- In the run the loop has taken a free permit, and has held it ever since. -/
def Holding (c : Setup) (s : State) (ms : List Move) : Prop :=
  ∃ xs ys, ms = xs ++ .loop .permit :: ys ∧ (s.run c xs).loop = .acquiring ∧ 0 < (s.run c xs).free ∧
    (s.run c (xs ++ [.loop .permit])).Follows c (fun t _ => t.loop = .holding) ys

/-- In the run the loop has taken a free permit, has seen the link up while it held it, and has been about
to claim ever since. -/
def Gated (c : Setup) (s : State) (ms : List Move) : Prop :=
  ∃ xs ys, ms = xs ++ .loop .go :: ys ∧ s.Holding c xs ∧ (s.run c xs).loop = .holding ∧
    (s.run c xs).link = .connected ∧
    (s.run c (xs ++ [.loop .go])).Follows c (fun t _ => t.loop = .claiming) ys

theorem holding_of_run (off : s.loop = .off) (ms : List Move) (holds : (s.run c ms).loop = .holding) :
    s.Holding c ms := by
  induction ms using List.reverseRecOn with
  | nil =>
    rw [show s.run c [] = s from rfl, off] at holds
    cases holds
  | append_singleton ms m ih =>
    rw [run_concat] at holds
    rcases (step_toward _ m).1 holds with before | ⟨rfl, acquiring, free⟩
    · obtain ⟨xs, ys, rfl, acquiring, free, held⟩ := ih before
      refine ⟨xs, ys ++ [m], by simp, acquiring, free, held.concat ?_⟩
      rw [← run_append]
      simpa using before
    · exact ⟨ms, [], rfl, acquiring, free, trivial⟩

/-- The loop is never about to claim but through the gate. -/
theorem gated_of_run (off : s.loop = .off) (ms : List Move) (claims : (s.run c ms).loop = .claiming) :
    s.Gated c ms := by
  induction ms using List.reverseRecOn with
  | nil =>
    rw [show s.run c [] = s from rfl, off] at claims
    cases claims
  | append_singleton ms m ih =>
    rw [run_concat] at claims
    rcases (step_toward _ m).2 claims with before | ⟨rfl, holds, link⟩
    · obtain ⟨xs, ys, rfl, held, holds, link, stays⟩ := ih before
      refine ⟨xs, ys ++ [m], by simp, held, holds, link, stays.concat ?_⟩
      rw [← run_append]
      simpa using before
    · exact ⟨ms, [], rfl, holding_of_run off ms holds, holds, link, trivial⟩

/-! ## Runs -/

theorem ordered_of_fresh {disk : Disk} {ms : List Move}
    (run : (State.init c disk).Follows c Move.Fresh ms) : ((State.init c disk).run c ms).ledger.Ordered :=
  (Ledger.Ordered.init c disk).acts (.init c disk) (run_acts_of_fresh run)

theorem runningIds_eq_inHand {disk : Disk} {ms : List Move}
    (run : (State.init c disk).Follows c Move.Fresh ms) :
    ((State.init c disk).run c ms).ledger.runningIds = ((State.init c disk).run c ms).inHand :=
  Acts.preserves (P := fun l => l.runningIds = Happening.inHand l.history)
    (fun _ _ h act => act.inHand h) (run_acts_of_fresh run) rfl

/-- A claim is a turn of the loop, and it takes the head of the queue. -/
theorem claimed_step (h : s.ledger.Owned) (ordered : s.ledger.Ordered) {m : Move} (fresh : m.Fresh s) :
    (s.step c m).claimed = s.claimed ∨ m = .loop .go ∧ s.loop = .claiming ∧
      ∃ task rest, s.queue = task :: rest ∧ (s.step c m).queue = rest ∧
        (s.step c m).claimed = s.claimed ++ [task.id] := by
  by_cases turns : ∃ turn, m = .loop turn
  · obtain ⟨turn, rfl⟩ := turns
    refine (s.stepLoop_cases turn).2.2.imp id ?_
    rintro ⟨rfl, rest⟩
    exact ⟨rfl, rest⟩
  · left
    have acts : Acts c .any s.ledger (s.step c m).ledger := step_acts (act_of_fresh fresh)
    refine claimed_eq_of_next ordered (ordered.acts h acts) acts ?_
    by_cases starts : m = .start
    · subst starts
      show s.start.nextSeq = s.nextSeq
      unfold start
      split <;> rfl
    · exact (s.step_apart (fun turn h => turns ⟨turn, h⟩) starts).loop_next.2

/-- First come, first served, over every run with fresh submissions. The log of all entries into the queue,
without those that were cancelled in it, is the claims so far followed by the queue, in their orders; a
recovery adds tasks to it in the order in which the store lists them. A claim that is refused or finds
nothing changes nothing. What is shown as running are the tasks that were claimed and not let go since, in
the order of their claims: one line for each entry of the running set, with its title, its time of creation
and whether its cancellation was asked for. And every claim takes the head of the queue, in a turn of the
loop that took a permit first and saw the link up after that. -/
theorem fifo_dispatch (c : Setup) (disk : Disk) (ms : List Move)
    (run : (State.init c disk).Follows c Move.Fresh ms) :
    let s := (State.init c disk).run c ms
    s.arrivals = s.claimed ++ s.ledger.queuedIds ∧
      (∃ taken : List Record, (∀ records, s.disk.listPending.1 = .ok records → taken.Sublist records) ∧
        (s.recover c).2.arrivals = s.arrivals ++ taken.map Record.id) ∧
      (s.claimNext.1 ≠ .task → ∃ disk, s.claimNext.2 = { s with disk } ∧ disk.store = s.disk.store) ∧
      s.runningViews.map View.id = s.inHand ∧
      (s.running.Pairwise (fun r x => r.seq < x.seq) ∧
        List.Forall₂ (fun r v => v = (⟨r.id, r.title, r.createdAt, r.cancelRequested⟩ : View) ∧
          s.claimed[r.seq]? = some v.id ∧ v.id ∉ s.claimed.drop (r.seq + 1)) s.running s.runningViews) ∧
      ∀ xs m ys, ms = xs ++ m :: ys →
        let t := (State.init c disk).run c xs
        (t.step c m).claimed = t.claimed ∨
          m = .loop .go ∧ t.loop = .claiming ∧ (State.init c disk).Gated c xs ∧
            ∃ task rest, t.queue = task :: rest ∧ (t.step c m).queue = rest ∧
              (t.step c m).claimed = t.claimed ++ [task.id] := by
  intro s
  have ordered : s.ledger.Ordered := ordered_of_fresh run
  have conserved : s.Conserved c := (Conserved.init c disk).run ms
  have shown : s.runningViews.map View.id = s.ledger.runningIds := List.map_map
  refine ⟨arrivals_eq ordered, ?_, ?_, shown.trans (runningIds_eq_inHand run),
    ⟨List.pairwise_map.mp conserved.inOrder, ?_⟩, ?_⟩
  · obtain ⟨taken, -, listed, queue, -⟩ := s.recover_adds (c := c)
    have acts : Acts c .any s.ledger (s.recover c).2.ledger := s.recover_acts.acts
    have owned : s.ledger.Owned := (Ledger.Owned.init c disk).acts (run_acts_of_fresh run)
    have after := ordered.acts owned acts
    refine ⟨taken, listed, ?_⟩
    rw [arrivals_eq after, arrivals_eq ordered,
      claimed_eq_of_next ordered after acts (staff_eq_iff.mp s.staff_recover).2.1]
    have ids : (s.recover c).2.ledger.queuedIds = s.ledger.queuedIds ++ taken.map Record.id := by
      show (s.recover c).2.queue.map Queued.id = _
      rw [queue, List.map_append, List.map_map]
      rfl
    rw [ids, List.append_assoc]
  · intro refused
    rcases s.claimNext_cases with ⟨task, -⟩ | ⟨-, unchanged⟩
    · exact absurd task refused
    · exact unchanged
  · rw [runningViews, List.forall₂_map_right_iff, List.forall₂_same]
    exact fun r hr => ⟨rfl, ordered.entries r hr⟩
  · rintro xs m ys rfl t
    obtain ⟨before, fresh, -⟩ := Follows.append.mp run
    have owned : t.ledger.Owned := (Ledger.Owned.init c disk).acts (run_acts_of_fresh before)
    refine (claimed_step owned (ordered_of_fresh before) fresh).imp id ?_
    rintro ⟨turn, claiming, takes⟩
    exact ⟨turn, claiming, gated_of_run rfl xs claiming, takes⟩

/-- Of three tasks one is cancelled in the queue. The first one fails and goes to the back, the claim of the
other is refused once, the link goes down and up, and then it is claimed. -/
def backOfQueueRun : List Move :=
  [.submit "a" "mem" (Transfer.encode ⟨"a", "out/a"⟩) "film", .submit "b" "mem" [] "song",
    .submit "d" "mem" [] "book", .cancel "d", .start, .loop .go, .loop .permit, .loop .go, .loop .go,
    .worker 0 .go, .worker 0 .go, .worker 0 (.fetched (.error ⟨.network, "down"⟩)), .worker 0 .go,
    .worker 0 .go, .worker 0 .go, .worker 0 .go, .worker 0 .go, .outage (.update .running) (.times 1),
    .loop .go, .loop .permit, .loop .go, .loop .go, .loop .pauseOver, .loop .go, .loop .permit,
    .link .reconnecting, .loop .go, .loop .go, .link .connected, .loop .link, .loop .go, .loop .permit,
    .loop .go, .loop .go]

theorem fifo_dispatch_back_of_queue :
    let s := (State.init (Setup.small 1) {}).run (Setup.small 1) backOfQueueRun
    (State.init (Setup.small 1) {}).Follows (Setup.small 1) Move.Fresh backOfQueueRun ∧
      s.claimed = ["a", "b"] ∧ s.ledger.queuedIds = ["a"] ∧ s.arrivals = ["a", "b", "a"] ∧
      s.runningViews.map View.id = ["b"] := by
  have run : (State.init (Setup.small 1) {}).Follows (Setup.small 1) Move.Fresh backOfQueueRun := by
    decide +kernel
  have claimed : ((State.init (Setup.small 1) {}).run (Setup.small 1) backOfQueueRun).claimed =
      ["a", "b"] := by decide +kernel
  have queued : ((State.init (Setup.small 1) {}).run (Setup.small 1)
      backOfQueueRun).ledger.queuedIds = ["a"] := by decide +kernel
  have inHand : ((State.init (Setup.small 1) {}).run (Setup.small 1) backOfQueueRun).inHand = ["b"] := by
    decide +kernel
  obtain ⟨log, -, -, shown, -⟩ := fifo_dispatch _ _ _ run
  exact ⟨run, claimed, queued, by rw [log, claimed, queued]; rfl, shown.trans inHand⟩

end State

end Courier.Scheduler
