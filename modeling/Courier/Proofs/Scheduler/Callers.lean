/-
# Courier.Proofs.Scheduler.Callers -- following one caller

A request that has left the lock goes on as one of the callers, with its list of things to do. Its place
among them changes when others return, so what a caller has done in a run, and what it has still to do, can
only be said by following it (`State.place`). `State.course` is the account of it: the list that the caller
came with is what it has carried out in the run, followed by what it has not.
-/
import Courier.Proofs.Scheduler.Cancellation
import Courier.Proofs.Scheduler.Requested
import Courier.Proofs.Scheduler.Wakeup

namespace Courier.Scheduler

variable {c : Setup}

namespace State

variable {s : State}

/-- What a move adds to the history, the latest first. -/
def news (c : Setup) (s : State) (m : Move) : List Happening := s.since (s.step c m)

theorem news_eq {m : Move} {hs : List Happening} (history : (s.step c m).history = hs ++ s.history) :
    s.news c m = hs := since_eq history

theorem history_news (s : State) (m : Move) : (s.step c m).history = s.news c m ++ s.history := by
  obtain ⟨hs, history⟩ := s.history_step (c := c) m
  rw [news_eq history, history]

/-! ## Places -/

/-- Where the caller in a place is after a move: nowhere if it has returned. -/
def follow (s : State) (i : Nat) : Move → Option Nat
  | .resume call =>
    if s.calls[call]? = some [] then if call = i then none else some (if call < i then i - 1 else i)
    else some i
  | _ => some i

/-- Where the caller in a place is after a run. -/
def place (c : Setup) : State → Nat → List Move → Option Nat
  | _, i, [] => some i
  | s, i, m :: ms => (s.follow i m).bind fun j => place c (s.step c m) j ms

theorem place_concat (s : State) (i : Nat) (ms : List Move) (m : Move) :
    place c s i (ms ++ [m]) = (place c s i ms).bind fun j => (s.run c ms).follow j m := by
  induction ms generalizing s i with
  | nil => simp [place, run]
  | cons m' ms ih =>
    show ((s.follow i m').bind fun j => place c (s.step c m') j (ms ++ [m])) = _
    rw [place, Option.bind_assoc]
    congr 1
    funext j
    exact ih (s.step c m') j

/-- Only a caller that goes on changes the list of callers otherwise than at its end. -/
theorem calls_step (s : State) {m : Move} (other : ∀ call, m ≠ .resume call) :
    ∃ more, (s.step c m).calls = s.calls ++ more := by
  have same {t : State} (calls : t.calls = s.calls) : ∃ more, t.calls = s.calls ++ more :=
    ⟨[], by rw [calls, List.append_nil]⟩
  cases m with
  | resume call => exact absurd rfl (other call)
  | submit id kind payload title =>
    rcases s.submit_cases (c := c) id kind payload title with ⟨e, disk, -, h⟩ | ⟨disk, -, h⟩ <;> rw [step, h]
    · exact same rfl
    · exact ⟨_, rfl⟩
  | cancel id =>
    rcases s.cancel_cases id with ⟨e, disk, -, h⟩ | ⟨disk, -, -, h⟩ | ⟨r, -, -, h⟩ <;> rw [step, h]
    · exact same rfl
    · exact ⟨_, rfl⟩
    · rcases s.tellRunning_cases r with ⟨-, ht⟩ | ⟨-, ht⟩ <;> rw [ht] <;> exact same rfl
  | recover =>
    obtain ⟨t, taken, settled, -, gathered, ⟨-, h⟩ | ⟨-, h⟩⟩ := s.recover_gathers (c := c) <;> rw [step, h]
    · exact ⟨_, rfl⟩
    · exact same gathered.calls
  | loop turn => exact same (s.stepLoop_idle turn).1
  | worker seq answer =>
    rcases s.stepWorker_cases (c := c) seq answer with h | ⟨w, -, -, worked⟩
    · exact same (congrArg State.calls h)
    · exact same worked.frame.1
  | start =>
    simp only [step, start]
    split <;> exact same rfl
  | link link =>
    simp only [step, setLink]
    split <;> exact same rfl
  | putRecord r =>
    simp only [step]
    split <;> exact same rfl
  | shutdown | unwatch | clock _ | outage _ _ | heal | deleteRecord _ => exact same rfl

/-- What a move means for one caller: it is not its move, or it returns, or it carries out what comes
next. -/
inductive Course (c : Setup) (s : State) (i : Nat) (m : Move) : List Effect → Prop
  | other (j : Nat) (es : List Effect) (apart : m ≠ .resume i) (place : s.follow i m = some j)
      (still : (s.step c m).calls[j]? = some es) : Course c s i m es
  | returns (own : m = .resume i) (place : s.follow i m = none) (news : s.news c m = []) : Course c s i m []
  | carries (e : Effect) (es : List Effect) (own : m = .resume i) (place : s.follow i m = some i)
      (left : (s.step c m).calls[i]? = some es) (news : s.news c m = e.happenings) : Course c s i m (e :: es)

theorem calls_perform (s : State) (e : Effect) : (s.perform e).calls = s.calls := by
  cases e <;> rfl

theorem history_perform (s : State) (e : Effect) : (s.perform e).history = e.happenings ++ s.history := by
  cases e <;> rfl

theorem course_resume {i : Nat} {es : List Effect} (here : s.calls[i]? = some es) (call : Nat) :
    s.Course c i (.resume call) es := by
  cases next : s.calls[call]? with
  | none =>
    have apart : call ≠ i := fun same => by rw [← same, next] at here; cases here
    refine .other i es (fun same => apart (by cases same; rfl)) ?_ ?_
    · simp [follow, next]
    · simp [step, resume, next, here]
  | some fs =>
    cases fs with
    | nil =>
      have erased : (s.step c (.resume call)) = { s with calls := s.calls.eraseIdx call } := by
        simp only [step, resume, next]
      by_cases own : call = i
      · subst own
        obtain rfl : es = [] := Option.some.inj (here.symm.trans next)
        exact .returns rfl (by simp [follow, next]) (news_eq (by rw [erased]; rfl))
      · refine .other (if call < i then i - 1 else i) es (fun same => own (by cases same; rfl)) ?_ ?_
        · simp [follow, next, own]
        · rw [erased, List.getElem?_eraseIdx]
          split
          · rename_i before
            have past : ¬i - 1 < call := by omega
            rw [if_neg past, Nat.sub_add_cancel (by omega)]
            exact here
          · rename_i after
            rw [if_pos (by omega)]
            exact here
    | cons e fs =>
      have carried : s.step c (.resume call) = ({ s with calls := s.calls.set call fs } : State).perform e := by
        simp only [step, resume, next]
      have calls : (s.step c (.resume call)).calls = s.calls.set call fs := by
        rw [carried, calls_perform]
      have stays : s.follow i (.resume call) = some i := by simp [follow, next]
      by_cases own : call = i
      · subst own
        obtain rfl : es = e :: fs := Option.some.inj (here.symm.trans next)
        refine .carries e fs rfl stays ?_ (news_eq ?_)
        · rw [calls, List.getElem?_set_self']
          simp [next]
        · rw [carried, history_perform]
      · refine .other i es (fun same => own (by cases same; rfl)) stays ?_
        rw [calls, List.getElem?_set_ne own]
        exact here

theorem course_step {i : Nat} {es : List Effect} (here : s.calls[i]? = some es) (m : Move) :
    s.Course c i m es := by
  by_cases resumes : ∃ call, m = .resume call
  · obtain ⟨call, rfl⟩ := resumes
    exact course_resume here call
  · have other : ∀ call, m ≠ .resume call := fun call same => resumes ⟨call, same⟩
    obtain ⟨more, calls⟩ := s.calls_step (c := c) other
    refine .other i es (other i) ?_ ?_
    · cases m with
      | resume call => exact absurd rfl (other call)
      | _ => rfl
    · rw [calls, List.getElem?_append_left (List.getElem?_eq_some_iff.mp here).1]
      exact here

/-! ## Reports of one caller -/

/-- In the run the caller reports the event. -/
def Reports (c : Setup) (s : State) (i : Nat) (ms : List Move) (e : Event) : Prop :=
  ∃ xs call ys, ms = xs ++ .resume call :: ys ∧ place c s i xs = some call ∧
    .reported e ∈ (s.run c xs).news c (.resume call)

/-- After the run the caller has still to report the event. -/
def StillOwes (c : Setup) (s : State) (i : Nat) (ms : List Move) (e : Event) : Prop :=
  ∃ call es, place c s i ms = some call ∧ (s.run c ms).calls[call]? = some es ∧ .report e ∈ es

/-- A move of a run that has one more move is the last one, or one of those before. -/
theorem split_concat {xs ys ms : List Move} {m m' : Move} (split : ms ++ [m] = xs ++ m' :: ys) :
    (xs = ms ∧ m' = m) ∨ ∃ zs, ms = xs ++ m' :: zs := by
  cases ys using List.reverseRecOn with
  | nil =>
    obtain ⟨rfl, rfl⟩ := List.append_singleton_inj.mp split
    exact Or.inl ⟨rfl, rfl⟩
  | append_singleton ys last =>
    rw [← List.cons_append, ← List.append_assoc] at split
    exact Or.inr ⟨ys, (List.append_singleton_inj.mp split).1⟩

theorem not_reports_nil (s : State) (i : Nat) (e : Event) : ¬s.Reports c i [] e := by
  rintro ⟨xs, call, ys, split, -⟩
  cases xs <;> cases split

theorem reports_concat (s : State) (i : Nat) (ms : List Move) (m : Move) (e : Event) :
    s.Reports c i (ms ++ [m]) e ↔ s.Reports c i ms e ∨
      ∃ call, m = .resume call ∧ place c s i ms = some call ∧ .reported e ∈ (s.run c ms).news c m := by
  constructor
  · rintro ⟨xs, call, ys, split, here, reported⟩
    rcases split_concat split with ⟨rfl, rfl⟩ | ⟨zs, rfl⟩
    · exact Or.inr ⟨call, rfl, here, reported⟩
    · exact Or.inl ⟨xs, call, zs, rfl, here, reported⟩
  · rintro (⟨xs, call, ys, rfl, here, reported⟩ | ⟨call, rfl, here, reported⟩)
    · exact ⟨xs, call, ys ++ [m], by simp, here, reported⟩
    · exact ⟨ms, call, [], rfl, here, reported⟩

theorem reported_mem_happenings {e : Effect} {x : Event} : .reported x ∈ e.happenings ↔ e = .report x := by
  cases e <;> simp [Effect.happenings, eq_comm]

/-- What a caller came with is what it has carried out in a run and what it has not. -/
theorem course {i : Nat} {es : List Effect} (here : s.calls[i]? = some es) (ms : List Move) :
    ∃ done left, es = done ++ left ∧ (∀ e, s.Reports c i ms e ↔ .report e ∈ done) ∧
      ∀ e, s.StillOwes c i ms e ↔ .report e ∈ left := by
  suffices h : ∃ done left, es = done ++ left ∧ (∀ e, s.Reports c i ms e ↔ .report e ∈ done) ∧
      (place c s i ms = none ∧ left = [] ∨
        ∃ call, place c s i ms = some call ∧ (s.run c ms).calls[call]? = some left) by
    obtain ⟨done, left, split, reports, ⟨gone, rfl⟩ | ⟨call, at_, calls⟩⟩ := h
    · refine ⟨done, [], split, reports, fun e => iff_of_false ?_ List.not_mem_nil⟩
      rintro ⟨call, es, at_, -⟩
      rw [gone] at at_
      cases at_
    · refine ⟨done, left, split, reports, fun e => ⟨?_, fun owed => ⟨call, left, at_, calls, owed⟩⟩⟩
      rintro ⟨call', es', at', calls', owed⟩
      obtain rfl : call = call' := Option.some.inj (at_.symm.trans at')
      obtain rfl : left = es' := Option.some.inj (calls.symm.trans calls')
      exact owed
  induction ms using List.reverseRecOn with
  | nil =>
    exact ⟨[], es, rfl, fun e => iff_of_false (s.not_reports_nil i e) List.not_mem_nil,
      Or.inr ⟨i, rfl, here⟩⟩
  | append_singleton ms m ih =>
    obtain ⟨done, left, rfl, reports, story⟩ := ih
    -- Nothing new is reported by the caller.
    have silent (none : ∀ call e, m = .resume call → place c s i ms = some call →
        .reported e ∉ (s.run c ms).news c m) (e : Event) :
        s.Reports c i (ms ++ [m]) e ↔ .report e ∈ done := by
      rw [reports_concat, reports e, or_iff_left]
      rintro ⟨call, own, at_, reported⟩
      exact none call e own at_ reported
    rcases story with ⟨gone, rfl⟩ | ⟨call, at_, calls⟩
    · refine ⟨done, [], rfl, silent fun call e _ at_ => ?_, Or.inl ⟨?_, rfl⟩⟩
      · rw [gone] at at_
        cases at_
      · rw [place_concat, gone, Option.bind_none]
    · have place : place c s i (ms ++ [m]) = (s.run c ms).follow call m := by
        rw [place_concat, at_, Option.bind_some]
      rw [run_concat, place]
      cases course_step (c := c) calls m with
      | other j _ apart moves still =>
        refine ⟨done, left, rfl, silent fun call' e own at' => ?_, Or.inr ⟨j, moves, still⟩⟩
        obtain rfl : call = call' := Option.some.inj (at_.symm.trans at')
        exact absurd own apart
      | returns own moves news =>
        refine ⟨done, [], rfl, silent fun call e _ _ => ?_, Or.inl ⟨moves, rfl⟩⟩
        rw [news]
        exact List.not_mem_nil
      | carries e es own moves rest news =>
        refine ⟨done ++ [e], es, by simp, fun x => ?_, Or.inr ⟨call, moves, rest⟩⟩
        rw [reports_concat, reports x, List.mem_append, List.mem_singleton, eq_comm (b := e), news]
        refine or_congr_right ⟨?_, fun carried => ⟨call, own, at_, reported_mem_happenings.mpr carried⟩⟩
        rintro ⟨-, -, -, reported⟩
        exact reported_mem_happenings.mp reported

end State

end Courier.Scheduler
