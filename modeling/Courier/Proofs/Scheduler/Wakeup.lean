/-
# Courier.Proofs.Scheduler.Wakeup -- no wake-up is lost

Whoever puts a task into the queue does it under the lock and leaves a wake-up for the dispatch loop only
afterwards, outside it, and of several wake-ups only one is kept. In between anybody may step in, the loop
too: it may look at the queue once more for another reason, find it empty, and wait again.

That no task is left behind is not a matter of counting wake-ups. What carries the argument is a debt: of
every task that waits while the loop waits for a wake-up, either a wake-up is there, or the party that
queued the task has not yet left one (`State.Owing`). A debt ends only with a wake-up, and the loop waits
only where it has just found the queue empty.

A recovery that fails half-way is the exception, and is excluded: what it has queued by then stays queued,
and nobody is woken for it.
-/
import Courier.Proofs.Scheduler.Gathering
import Courier.Proofs.Scheduler.Slots

namespace Courier.Scheduler

variable {c : Setup}

/-- Does the move come to its end? Only a recovery can fail after it has queued a task. -/
def Move.completes (c : Setup) (s : State) : Move → Bool
  | .recover => (s.recover c).1.isOk
  | _ => true

namespace State

variable {s : State}

/-! ## Debts -/

/-- What each caller has put into the queue, caller by caller as in `State.calls`, after one more move. -/
def enteredBy (c : Setup) (s : State) (entered : List (List Queued)) (m : Move) : List (List Queued) :=
  match m with
  | .resume call => if s.calls[call]? = some [] then entered.eraseIdx call else entered
  | m =>
    if s.calls.length < (s.step c m).calls.length then
      entered ++ [(s.step c m).queue.drop s.queue.length]
    else entered

theorem enteredBy_resume (s : State) (entered : List (List Queued)) (call : Nat) :
    s.enteredBy c entered (.resume call) =
      if s.calls[call]? = some [] then entered.eraseIdx call else entered := rfl

theorem enteredBy_of_ne (entered : List (List Queued)) {m : Move} (resumes : ∀ call, m ≠ .resume call) :
    s.enteredBy c entered m =
      if s.calls.length < (s.step c m).calls.length then
        entered ++ [(s.step c m).queue.drop s.queue.length]
      else entered := by
  cases m with
  | resume call => exact absurd rfl (resumes call)
  | _ => rfl

/-- What each caller that is still under way after a run has put into the queue. -/
def entered (c : Setup) : State → List (List Queued) → List Move → List (List Queued)
  | _, before, [] => before
  | s, before, m :: ms => entered c (s.step c m) (s.enteredBy c before m) ms

/-- The party that has put the task into the queue has not yet left a wake-up: it is a caller under way, or
the worker whose attempt is to be retried. -/
def Owing (s : State) (entered : List (List Queued)) (t : Queued) : Prop :=
  (∃ (call : Nat) (es : List Effect) (ts : List Queued),
    s.calls[call]? = some es ∧ entered[call]? = some ts ∧ .wake ∈ es ∧ t ∈ ts) ∨
    ∃ w ∈ s.workers, ∃ es, w.phase = .effects es ∧ .wake ∈ es ∧
      t = { w.task with remaining := t.remaining }

/-- Nothing that waits has been forgotten while the loop waits. -/
structure Roused (s : State) (entered : List (List Queued)) : Prop where
  callers : entered.length = s.calls.length
  owed : s.loop = .idle → ∀ t ∈ s.queue, s.wakeup = true ∨ s.Owing entered t

theorem Roused.init (c : Setup) (disk : Disk) : (State.init c disk).Roused [] :=
  ⟨rfl, nofun⟩

/-! ## Requests -/

/-- What a move of neither the loop nor a worker makes of the queue: what is new in it is the work of a
new caller, who will leave a wake-up. -/
structure Enters (s t : State) : Prop where
  queue : ∀ x ∈ t.queue, x ∈ s.queue ∨ x ∈ t.queue.drop s.queue.length ∧ t.calls ≠ s.calls
  calls : t.calls = s.calls ∨
    ∃ es, t.calls = s.calls ++ [es] ∧ (t.queue.drop s.queue.length ≠ [] → .wake ∈ es)
  wakeup : t.wakeup = s.wakeup
  workers : ∀ w ∈ s.workers, ∃ v ∈ t.workers, v.task = w.task ∧ v.phase = w.phase

theorem Enters.of_eq {s t : State} (queue : t.queue = s.queue) (calls : t.calls = s.calls)
    (wakeup : t.wakeup = s.wakeup) (workers : t.workers = s.workers) : Enters s t where
  queue _ hx := Or.inl (queue ▸ hx)
  calls := Or.inl calls
  wakeup := wakeup
  workers w hw := ⟨w, workers ▸ hw, rfl, rfl⟩

theorem submit_enters (s : State) (id kind : String) (payload : Bytes) (title : String) :
    Enters s (s.submit c id kind payload title).2 := by
  rcases s.submit_cases (c := c) id kind payload title with ⟨e, disk, -, h⟩ | ⟨disk, -, h⟩ <;> rw [h]
  · exact .of_eq rfl rfl rfl rfl
  · refine ⟨?_, Or.inr ⟨[.wake], rfl, by simp⟩, rfl, fun w hw => ⟨w, hw, rfl, rfl⟩⟩
    intro x hx
    refine (List.mem_append.mp hx).imp_right fun new => ⟨?_, by simp⟩
    simpa using new

theorem cancel_enters (s : State) (id : String) : Enters s (s.cancel id).2 := by
  rcases s.cancel_cases id with ⟨e, disk, -, h⟩ | ⟨disk, -, -, h⟩ | ⟨r, -, -, h⟩ <;> rw [h]
  · exact .of_eq rfl rfl rfl rfl
  · have shorter : (s.queue.eraseP fun t => t.id = id).length ≤ s.queue.length :=
      (List.eraseP_sublist).length_le
    refine ⟨fun x hx => Or.inl (List.mem_of_mem_eraseP hx), Or.inr ⟨_, rfl, ?_⟩, rfl,
      fun w hw => ⟨w, hw, rfl, rfl⟩⟩
    intro new
    exact absurd (List.drop_eq_nil_of_le shorter) new
  · rcases s.tellRunning_cases r with ⟨-, ht⟩ | ⟨-, ht⟩ <;> rw [ht]
    · exact .of_eq rfl rfl rfl rfl
    · refine ⟨fun x hx => Or.inl hx, Or.inl rfl, rfl, ?_⟩
      intro w hw
      refine ⟨_, List.mem_map_of_mem hw, ?_⟩
      split <;> exact ⟨rfl, rfl⟩

theorem recover_enters (s : State) (completes : (s.recover c).1.isOk = true) :
    Enters s (s.recover c).2 := by
  obtain ⟨workers, -⟩ := staff_eq_iff.mp (s.staff_recover (c := c))
  obtain ⟨t, taken, settled, -, gathered, ⟨-, ht⟩ | ⟨⟨e, refused⟩, -⟩⟩ := s.recover_gathers (c := c)
  · obtain ⟨-, wakes⟩ := Recovery.effects_add taken settled
    rw [ht] at workers ⊢
    have queue := gathered.queue
    refine ⟨?_, Or.inr ⟨_, rfl, ?_⟩, gathered.wakeup, fun w hw => ⟨w, workers ▸ hw, rfl, rfl⟩⟩
    · intro x hx
      simp only [queue, List.drop_left]
      rw [queue] at hx
      exact (List.mem_append.mp hx).imp_right fun new => ⟨new, by simp⟩
    · simp only [queue, List.drop_left]
      intro new
      refine wakes.mpr ?_
      rintro rfl
      exact new rfl
  · rw [refused] at completes
    cases completes

theorem step_enters (s : State) {m : Move} (completes : m.completes c s = true)
    (resumes : ∀ call, m ≠ .resume call) (turns : ∀ turn, m ≠ .loop turn)
    (works : ∀ seq answer, m ≠ .worker seq answer) : Enters s (s.step c m) := by
  cases m with
  | submit id kind payload title => exact s.submit_enters id kind payload title
  | cancel id => exact s.cancel_enters id
  | recover => exact s.recover_enters completes
  | resume call => exact absurd rfl (resumes call)
  | loop turn => exact absurd rfl (turns turn)
  | worker seq answer => exact absurd rfl (works seq answer)
  | start =>
    simp only [step, start]
    split <;> exact .of_eq rfl rfl rfl rfl
  | link link =>
    simp only [step, setLink]
    split <;> exact .of_eq rfl rfl rfl rfl
  | putRecord r =>
    simp only [step]
    split <;> exact .of_eq rfl rfl rfl rfl
  | shutdown | unwatch | clock _ | outage _ _ | heal | deleteRecord _ => exact .of_eq rfl rfl rfl rfl

/-- A caller that enters takes its debt along, and those under way keep theirs. -/
theorem Roused.enter {s t : State} {entered : List (List Queued)} (h : s.Roused entered)
    (enters : Enters s t) (idle : t.loop = .idle → s.loop = .idle) :
    t.Roused (if s.calls.length < t.calls.length then entered ++ [t.queue.drop s.queue.length]
      else entered) := by
  have workers {x : Queued} : (∃ w ∈ s.workers, ∃ es, w.phase = .effects es ∧ .wake ∈ es ∧
      x = { w.task with remaining := x.remaining }) →
      ∃ w ∈ t.workers, ∃ es, w.phase = .effects es ∧ .wake ∈ es ∧
        x = { w.task with remaining := x.remaining } := by
    rintro ⟨w, hw, es, phase, wakes, hx⟩
    obtain ⟨v, hv, task, same⟩ := enters.workers w hw
    exact ⟨v, hv, es, same.trans phase, wakes, by rw [task]; exact hx⟩
  rcases enters.calls with calls | ⟨es, calls, wakes⟩
  · rw [if_neg (by rw [calls]; exact Nat.lt_irrefl _)]
    refine ⟨by rw [calls, h.callers], ?_⟩
    intro parked x hx
    have old : x ∈ s.queue := (enters.queue x hx).resolve_right fun new => new.2 calls
    rw [enters.wakeup]
    refine (h.owed (idle parked) x old).imp_right fun owing => owing.imp ?_ workers
    rw [calls]
    exact id
  · rw [if_pos (by rw [calls]; simp)]
    refine ⟨by rw [calls]; simp [h.callers], ?_⟩
    intro parked x hx
    rw [enters.wakeup]
    rcases enters.queue x hx with old | ⟨new, -⟩
    · refine (h.owed (idle parked) x old).imp_right fun owing => owing.imp ?_ workers
      rintro ⟨call, fs, ts, hcall, hentered, owes, hts⟩
      refine ⟨call, fs, ts, ?_, ?_, owes, hts⟩
      · rw [calls]
        exact List.getElem?_append_left (List.getElem?_eq_some_iff.mp hcall).1 ▸ hcall
      · exact List.getElem?_append_left (List.getElem?_eq_some_iff.mp hentered).1 ▸ hentered
    · right
      refine Or.inl ⟨s.calls.length, es, _, by simp [calls], ?_, wakes (List.ne_nil_of_mem new), new⟩
      rw [← h.callers]
      exact List.getElem?_concat_length

/-! ## Callers -/

/-- A caller pays with a wake-up or keeps its debt, and returns when it owes nothing. -/
theorem Roused.resume {entered : List (List Queued)} (h : s.Roused entered) (call : Nat) :
    (s.resume call).Roused (s.enteredBy c entered (.resume call)) := by
  rw [enteredBy_resume]
  unfold State.resume
  split
  · rename_i none
    simpa [none] using h
  · rename_i done
    rw [if_pos done]
    refine ⟨by simp [List.length_eraseIdx, h.callers], ?_⟩
    intro parked x hx
    refine (h.owed parked x hx).imp_right fun owing => owing.imp_left ?_
    rintro ⟨i, es, ts, hcall, hentered, owes, hts⟩
    have other : i ≠ call := by
      rintro rfl
      rw [done] at hcall
      cases hcall
      cases owes
    -- The callers after the one that returns move up.
    by_cases before : i < call
    · exact ⟨i, es, ts, by simp [List.getElem?_eraseIdx, before, hcall],
        by simp [List.getElem?_eraseIdx, before, hentered], owes, hts⟩
    · obtain ⟨j, rfl⟩ : ∃ j, i = j + 1 := ⟨i - 1, by omega⟩
      have after : ¬ j < call := by omega
      exact ⟨j, es, ts, by simp [List.getElem?_eraseIdx, after, hcall],
        by simp [List.getElem?_eraseIdx, after, hentered], owes, hts⟩
  · rename_i e es next
    have more : s.calls[call]? ≠ some [] := by simp [next]
    rw [if_neg more]
    have calls : (({ s with calls := s.calls.set call es } : State).perform e).calls =
        s.calls.set call es := by
      cases e <;> rfl
    refine ⟨by rw [calls, List.length_set, h.callers], ?_⟩
    intro parked x hx
    by_cases wakes : e = .wake
    · subst wakes
      exact Or.inl rfl
    · have frame : (({ s with calls := s.calls.set call es } : State).perform e).queue = s.queue ∧
          (({ s with calls := s.calls.set call es } : State).perform e).wakeup = s.wakeup ∧
          (({ s with calls := s.calls.set call es } : State).perform e).workers = s.workers ∧
          (({ s with calls := s.calls.set call es } : State).perform e).loop = s.loop := by
        cases e <;> first | exact ⟨rfl, rfl, rfl, rfl⟩ | exact absurd rfl wakes
      obtain ⟨queue, wakeup, workers, loop⟩ := frame
      rw [queue] at hx
      rw [loop] at parked
      unfold Owing
      rw [wakeup, calls, workers]
      refine (h.owed parked x hx).imp_right fun owing => owing.imp_left ?_
      rintro ⟨i, fs, ts, hcall, hentered, owes, hts⟩
      by_cases same : call = i
      · subst same
        rw [next] at hcall
        cases hcall
        refine ⟨call, es, ts, ?_, hentered, ?_, hts⟩
        · simp [(List.getElem?_eq_some_iff.mp next).1]
        · exact (List.mem_cons.mp owes).resolve_left fun paid => wakes paid.symm
      · exact ⟨i, fs, ts, by simp [same, hcall], hentered, owes, hts⟩

/-! ## Workers -/

/-- A worker pays with a wake-up or keeps its debt, and the others keep theirs. -/
theorem Worked.owing {s t : State} {w : Worker} {answer : Answer} {entered : List (List Queued)}
    {x : Queued} (numbered : s.ledger.Numbered) (here : w ∈ s.workers) (worked : Worked c s w answer t)
    (h : s.Owing entered x) : t.wakeup = true ∨ t.Owing entered x := by
  have others {u : State} (calls : u.calls = s.calls)
      (keeps : ∀ v ∈ s.workers, v.seq ≠ w.seq → v ∈ u.workers)
      (own : ∀ es, w.phase = .effects es → .wake ∈ es → x = { w.task with remaining := x.remaining } →
        u.wakeup = true ∨ u.Owing entered x) : u.wakeup = true ∨ u.Owing entered x := by
    rcases h with caller | ⟨v, hv, es, phase, wakes, hx⟩
    · right
      left
      rw [calls]
      exact caller
    · by_cases heq : v.seq = w.seq
      · obtain rfl := numbered.worker_eq hv here heq
        exact own es phase wakes hx
      · exact Or.inr (Or.inr ⟨v, keeps v hv heq, es, phase, wakes, hx⟩)
  have moved {f : Worker → Worker} (v : Worker) (hv : v ∈ s.workers) (hne : v.seq ≠ w.seq) :
      v ∈ s.workers.map fun v => if v.seq = w.seq then f v else v :=
    List.mem_map.mpr ⟨v, hv, if_neg hne⟩
  cases worked with
  | effect e es phase =>
    have calls : ((s.perform e).setPhase w.seq (.effects es)).calls = s.calls := by cases e <;> rfl
    have workers : ((s.perform e).setPhase w.seq (.effects es)).workers =
        s.workers.map fun v => if v.seq = w.seq then { v with phase := .effects es } else v := by
      cases e <;> rfl
    refine others calls (fun v hv hne => workers ▸ moved v hv hne) ?_
    intro fs phase' wakes hx
    rw [phase] at phase'
    cases phase'
    rcases List.mem_cons.mp wakes with rfl | later
    · exact Or.inl rfl
    · refine Or.inr (Or.inr ⟨{ w with phase := .effects es }, ?_, es, rfl, later, hx⟩)
      rw [workers]
      exact List.mem_map.mpr ⟨w, here, if_pos rfl⟩
  | vanish ended =>
    refine others rfl (fun v hv hne => List.mem_filter.mpr ⟨hv, by simpa using hne⟩) ?_
    intro es phase wakes _
    rcases ended with done | ⟨-, waits⟩
    · rw [phase] at done
      cases done
      cases wakes
    · rw [phase] at waits
      cases waits
  | letGo es reason =>
    refine others rfl (fun v hv hne => moved v hv hne) ?_
    rcases reason with ⟨phase, -⟩ | ⟨phase, -⟩ <;> simp [phase]
  | advance p hs next =>
    refine others rfl (fun v hv hne => moved v hv hne) ?_
    exact fun es phase => absurd phase (next.phase_ne_effects es)
  | start phase | refused _ _ _ _ _ _ phase | finish _ _ _ _ phase | store _ _ _ _ phase | requeue _ _ phase
  | holdBack _ _ phase | clear phase =>
    refine others rfl (fun v hv hne => moved v hv hne) ?_
    simp [phase]

theorem Worked.frame {s t : State} {w : Worker} {answer : Answer} (worked : Worked c s w answer t) :
    t.calls = s.calls ∧ (s.wakeup = true → t.wakeup = true) ∧
      ∀ x ∈ t.queue, x ∈ s.queue ∨ ∃ remaining, x = { w.task with remaining } ∧
        (w ∈ s.workers → { w with phase := .effects [.wake] } ∈ t.workers) := by
  cases worked with
  | requeue failure remaining phase unasked =>
    refine ⟨rfl, id, fun x hx => (List.mem_append.mp hx).imp_right fun new => ?_⟩
    refine ⟨remaining, List.mem_singleton.mp new, ?_⟩
    intro here
    exact List.mem_map.mpr ⟨w, here, if_pos rfl⟩
  | effect e es phase => cases e <;> exact ⟨rfl, fun h => by first | exact h | rfl, fun x hx => Or.inl hx⟩
  | _ => exact ⟨rfl, id, fun x hx => Or.inl hx⟩

theorem Roused.work {s t : State} {w : Worker} {answer : Answer} {entered : List (List Queued)}
    (h : s.Roused entered) (numbered : s.ledger.Numbered) (here : w ∈ s.workers)
    (worked : Worked c s w answer t) : t.Roused entered := by
  obtain ⟨calls, wakeup, queue⟩ := worked.frame
  refine ⟨by rw [calls, h.callers], ?_⟩
  intro parked x hx
  rw [(worked.apart here).loop_next.1] at parked
  rcases queue x hx with old | ⟨remaining, rfl, paying⟩
  · rcases h.owed parked x old with woken | owing
    · exact Or.inl (wakeup woken)
    · exact worked.owing numbered here owing
  · exact Or.inr (Or.inr ⟨_, paying here, _, rfl, by simp, rfl⟩)

/-! ## The loop -/

/-- The loop comes to wait for a wake-up only where it has found the queue empty. -/
theorem stepLoop_idle (s : State) (turn : Turn) :
    (s.stepLoop turn).calls = s.calls ∧
      ((s.stepLoop turn).loop = .idle → s.stepLoop turn = s ∨ (s.stepLoop turn).queue = []) := by
  unfold stepLoop
  split
  case h_1 =>
    refine ⟨rfl, ?_⟩
    show (if s.link = .connected then Loop.acquiring else .paused) = .idle → _
    split <;> nofun
  case h_5 =>
    unfold claimNext
    cases hqueue : s.queue with
    | nil => exact ⟨rfl, fun _ => Or.inr hqueue⟩
    | cons task rest =>
      rcases s.writeStatus_cases task.id .running "" with ⟨disk, hw, -⟩ | ⟨e, disk, hw, -⟩ <;>
        simp only [hw] <;> exact ⟨trivial, nofun⟩
  -- The other turns lead elsewhere, or nowhere.
  all_goals first
    | exact ⟨rfl, fun _ => Or.inl rfl⟩
    | exact ⟨rfl, nofun⟩
    | split
      · exact ⟨rfl, nofun⟩
      · first | exact ⟨rfl, fun _ => Or.inl rfl⟩ | exact ⟨rfl, nofun⟩

theorem Roused.turn {entered : List (List Queued)} (h : s.Roused entered) (turn : Turn) :
    (s.stepLoop turn).Roused entered := by
  obtain ⟨calls, idle⟩ := s.stepLoop_idle turn
  refine ⟨by rw [calls, h.callers], ?_⟩
  intro parked x hx
  rcases idle parked with same | empty
  · rw [same] at parked hx ⊢
    exact h.owed parked x hx
  · rw [empty] at hx
    cases hx

/-! ## Runs -/

theorem Roused.step {entered : List (List Queued)} {m : Move} (h : s.Roused entered)
    (numbered : s.ledger.Numbered) (completes : m.completes c s = true) :
    (s.step c m).Roused (s.enteredBy c entered m) := by
  by_cases resumes : ∃ call, m = .resume call
  · obtain ⟨call, rfl⟩ := resumes
    exact h.resume call
  rw [enteredBy_of_ne entered fun call hm => resumes ⟨call, hm⟩]
  have same {t : State} (calls : t.calls = s.calls) (roused : t.Roused entered) :
      t.Roused (if s.calls.length < t.calls.length then entered ++ [t.queue.drop s.queue.length]
        else entered) := by
    rw [if_neg (by rw [calls]; exact Nat.lt_irrefl _)]
    exact roused
  by_cases turns : ∃ turn, m = .loop turn
  · obtain ⟨turn, rfl⟩ := turns
    exact same (s.stepLoop_idle turn).1 (h.turn turn)
  by_cases works : ∃ seq answer, m = .worker seq answer
  · obtain ⟨seq, answer, rfl⟩ := works
    show (s.stepWorker c seq answer).Roused _
    rcases s.stepWorker_cases (c := c) seq answer with stays | ⟨w, here, -, worked⟩
    · exact same (congrArg State.calls stays) (stays.symm ▸ h)
    · exact same worked.frame.1 (h.work numbered here worked)
  · refine h.enter (s.step_enters completes ?_ ?_ ?_) ?_
    · exact fun call hm => resumes ⟨call, hm⟩
    · exact fun turn hm => turns ⟨turn, hm⟩
    · exact fun seq answer hm => works ⟨seq, answer, hm⟩
    · by_cases starts : m = .start
      · subst starts
        simp only [State.step, start]
        split
        · exact fun parked => by cases parked
        · exact id
      · rw [(s.step_apart (c := c) (fun turn hm => turns ⟨turn, hm⟩) starts).loop_next.1]
        exact id

theorem roused_run {entered : List (List Queued)} {ms : List Move} (h : s.Roused entered)
    (numbered : s.ledger.Numbered) (run : s.Follows c (fun t m => m.completes c t = true) ms) :
    (s.run c ms).Roused (s.entered c entered ms) := by
  induction ms generalizing s entered with
  | nil => exact h
  | cons m ms ih => exact ih (h.step numbered run.1) (numbered_step numbered m) run.2

/-- While the loop waits for a wake-up, every task in the queue has one that is there, or one that the
party which has put it there is still to leave. -/
theorem no_lost_wakeup {disk : Disk} {ms : List Move}
    (run : (State.init c disk).Follows c (fun s m => m.completes c s = true) ms)
    (parked : ((State.init c disk).run c ms).loop = .idle) {t : Queued}
    (waits : t ∈ ((State.init c disk).run c ms).queue) :
    ((State.init c disk).run c ms).wakeup = true ∨
      ((State.init c disk).run c ms).Owing ((State.init c disk).entered c [] ms) t :=
  (roused_run (.init c disk) (.init c disk) run).owed parked t waits

/-- The loop waits for a wake-up; one task has gone back to the queue, and one has just been submitted. -/
def parkedRun : List Move :=
  [.submit "a" "mem" (Transfer.encode ⟨"a", "out/a"⟩) "film", .resume 0, .resume 0, .start, .loop .go,
    .loop .permit, .loop .go, .loop .go, .loop .go, .loop .permit, .loop .go, .loop .go, .loop .wakeup,
    .loop .go, .loop .permit, .loop .go, .loop .go, .worker 0 .go, .worker 0 .go,
    .worker 0 (.fetched (.error ⟨.network, "down"⟩)), .worker 0 .go, .worker 0 .go, .worker 0 .go,
    .submit "b" "mem" (Transfer.encode ⟨"b", "out/b"⟩) "song"]

/-- No wake-up is there, and both parties owe one. -/
theorem no_lost_wakeup_parked :
    let c := { Setup.small 1 with workers := 2 }
    let s := (State.init c {}).run c parkedRun
    (State.init c {}).Follows c (fun s m => m.completes c s = true) parkedRun ∧
      s.loop = .idle ∧ s.queue.map Queued.id = ["a", "b"] ∧ s.wakeup = false ∧
      ∀ t ∈ s.queue, s.Owing ((State.init c {}).entered c [] parkedRun) t := by
  intro c s
  have run : (State.init c {}).Follows c (fun s m => m.completes c s = true) parkedRun := by
    decide +kernel
  have parked : s.loop = .idle := by decide +kernel
  have asleep : s.wakeup = false := by decide +kernel
  refine ⟨run, parked, by decide +kernel, asleep, ?_⟩
  intro t waits
  refine (no_lost_wakeup run parked waits).resolve_left ?_
  show ¬s.wakeup = true
  simp [asleep]

end State

end Courier.Scheduler
