/-
# Courier.Proofs.Health.Protocol -- in which order signals come

The watchers of a monitor act on its signals without looking at its state: they pause, resume and give up as
they are told. So the signals have to tell the story of the link, each loss and each end of it once, although
the probe loop and several reconnection procedures may all have a part in it.

What keeps them in order is that the last signal and the state say the same (`Monitor.Tells`), as long as
the stop token has not fired. Every turn that changes the state in between emits exactly the signal of that
change. Once the token has fired the state still moves, and nothing is emitted.
-/
import Courier.Proofs.Health.Episodes
import Mathlib.Data.List.Chain

namespace Courier.Health

/-- The signals that may follow each other. -/
def Signal.leadsTo : Signal → Signal → Bool
  | .disconnected, .reconnected | .disconnected, .reconnectFailed => true
  | .reconnectFailed, .reconnected | .reconnectFailed, .disconnected => true
  | .reconnected, .disconnected => true
  | _, _ => false

namespace Monitor

/-- The signals emitted so far, the first one first. -/
def signals (m : Monitor) : List Signal := m.emitted.reverse

/-- The state is the one that the last signal stands for. -/
structure Tells (m : Monitor) : Prop where
  lost : m.link = .reconnecting ↔ m.signals.getLast? = some .disconnected
  givenUp : m.link = .disconnected ↔ m.signals.getLast? = some .reconnectFailed

/-- The signals follow each other as they may, and the first one reports a loss. -/
structure InOrder (m : Monitor) : Prop where
  chain : m.signals.IsChain fun a b => a.leadsTo b = true
  first : ∀ e, m.signals.head? = some e → e = .disconnected

variable {m : Monitor}

theorem signals_fire (m : Monitor) (signal : Signal) :
    (m.fire signal false).signals = m.signals ++ [signal] := by
  simp [signals, emitted_fire]

theorem InOrder.congr {m' : Monitor} (h : m.InOrder) (same : m'.signals = m.signals) : m'.InOrder := by
  constructor
  · rw [same]
    exact h.chain
  · rw [same]
    exact h.first

/-- The last signal stands for the state that the link is in. -/
theorem Tells.of_last {before : List Signal} {signal : Signal} (signals : m.signals = before ++ [signal])
    (lost : m.link = .reconnecting ↔ signal = .disconnected)
    (givenUp : m.link = .disconnected ↔ signal = .reconnectFailed) : m.Tells := by
  constructor
  · rw [lost, signals, List.getLast?_concat, Option.some_inj]
  · rw [givenUp, signals, List.getLast?_concat, Option.some_inj]

/-- One more signal, which may follow the last one. -/
theorem InOrder.concat {m' : Monitor} (h : m.InOrder) {signal : Signal}
    (signals : m'.signals = m.signals ++ [signal])
    (follows : ∀ e, m.signals.getLast? = some e → e.leadsTo signal = true)
    (opens : m.signals = [] → signal = .disconnected) : m'.InOrder := by
  constructor
  · rw [signals, List.isChain_append]
    refine ⟨h.chain, List.isChain_singleton _, ?_⟩
    rintro e he x hx
    obtain rfl : signal = x := by simpa using hx
    exact follows e he
  · intro e he
    rw [signals] at he
    cases before : m.signals with
    | nil =>
      rw [before] at he
      cases he
      exact opens before
    | cons x xs =>
      rw [before] at he
      cases he
      exact h.first e (by rw [before]; rfl)

end Monitor

variable {c : Settings} {m m' : Monitor} {r : Option Recorded}

/-- A party that was told to stop emits nothing. -/
theorem Turn.signals_of_stopped (turn : Turn c true m r m') : m'.signals = m.signals := by
  cases turn <;> simp [Monitor.signals, Monitor.restore, Monitor.lose, Monitor.emitted_fire, Monitor.reached,
    Monitor.missed]

open Monitor in
/-- What a party emits is what has become of the link. -/
theorem Turn.tells (turn : Turn c false m r m') (order : m.InOrder) (tells : m.Tells) :
    m'.InOrder ∧ m'.Tells := by
  -- A turn without a signal keeps the link among the states that no signal stands for, or as it is.
  have silent (same : m'.signals = m.signals) (link : m'.link = m.link ∨ ¬m.isLost ∧ ¬m'.isLost) :
      m'.InOrder ∧ m'.Tells := by
    refine ⟨order.congr same, ?_⟩
    rcases link with link | ⟨before, after⟩
    · exact ⟨by rw [link, same, tells.lost], by rw [link, same, tells.givenUp]⟩
    · refine ⟨?_, ?_⟩
      · rw [same, ← tells.lost]
        exact iff_of_false (fun h => after (Or.inl h)) fun h => before (Or.inl h)
      · rw [same, ← tells.givenUp]
        exact iff_of_false (fun h => after (Or.inr h)) fun h => before (Or.inr h)
  cases turn with
  | heard now up => exact silent (by simp [signals, reached]) (Or.inr ⟨up, by simp [isLost]⟩)
  | missed e => exact silent rfl (Or.inl rfl)
  | refused e => exact silent rfl (Or.inl rfl)
  | restored now lost =>
    have emits : ((m.reached now).restore false).signals = m.signals ++ [.reconnected] := by
      rw [restore, signals_fire]
      simp [signals, reached]
    refine ⟨order.concat emits ?_ ?_, ?_⟩
    · intro e he
      rcases lost with link | link
      · rw [tells.lost.mp link] at he
        cases he
        rfl
      · rw [tells.givenUp.mp link] at he
        cases he
        rfl
    · intro none
      rcases lost with link | link
      · simpa [none] using tells.lost.mp link
      · simpa [none] using tells.givenUp.mp link
    · exact .of_last emits (by simp [restore]) (by simp [restore])
  | lost e enough closed =>
    have emits : ((m.missed e).lose false).signals = m.signals ++ [.disconnected] := by
      rw [lose, signals_fire]
      simp [signals, Monitor.missed]
    refine ⟨order.concat emits ?_ fun _ => rfl, ?_⟩
    · intro e he
      cases e with
      | disconnected => exact absurd (tells.lost.mpr he) closed
      | reconnected | reconnectFailed => rfl
    · exact .of_last emits (by simp [lose]) (by simp [lose])
  | givenUp mending =>
    have emits : ((m.transition .disconnected).fire .reconnectFailed false).signals =
        m.signals ++ [.reconnectFailed] := by
      rw [signals_fire]
      simp [signals]
    have last := tells.lost.mp mending
    refine ⟨order.concat emits ?_ ?_, ?_⟩
    · intro e he
      rw [last] at he
      cases he
      rfl
    · intro none
      simp [none] at last
    · exact .of_last emits (by simp) (by simp)

namespace System

theorem Single.signals_of_stopped {s : System} (h : s.Single) {m : Move} (once : (s.step c m).starts ≤ 1)
    (stopped : s.isStopped 0 = true) : (s.step c m).monitor.signals = s.monitor.signals := by
  rcases h.step_turn once with ⟨rfl, fresh, starts, -⟩ | ⟨-, same, -⟩ | ⟨-, turn⟩
  · rw [starts, fresh]
    rfl
  · rw [same]
  · exact (stopped ▸ turn).signals_of_stopped

/-- Signals come in order, and until the token has fired the last one says how it stands with the link. -/
theorem in_order_run (c : Settings) (ms : List Move) (once : ms.countP Move.isStart ≤ 1) :
    (({} : System).run c ms).monitor.InOrder ∧
      ((({} : System).run c ms).isStopped 0 = false → (({} : System).run c ms).monitor.Tells) := by
  have silent {m : Monitor} (none : m.signals = []) (link : ¬m.isLost) : m.InOrder ∧ m.Tells := by
    refine ⟨⟨none ▸ .nil, by simp [none]⟩, ?_, ?_⟩
    · simpa [none] using fun h => link (Or.inl h)
    · simpa [none] using fun h => link (Or.inr h)
  refine induction_once (P := fun _ s => s.monitor.InOrder ∧ (s.isStopped 0 = false → s.monitor.Tells))
    ?_ ?_ ms once
  · exact (silent rfl (by simp [Monitor.isLost])).imp_right fun tells _ => tells
  · rintro ms m s - single once ⟨order, tells⟩
    cases stopped : s.isStopped 0 with
    | true =>
      refine ⟨order.congr (single.signals_of_stopped once stopped), fun after => ?_⟩
      rw [(s.carries_step m).stopped 0 stopped] at after
      cases after
    | false =>
      suffices h : (s.step c m).monitor.InOrder ∧ (s.step c m).monitor.Tells from h.imp_right fun h _ => h
      rcases single.step_turn once with ⟨rfl, -, starts, -⟩ | ⟨-, same, -⟩ | ⟨-, turn⟩
      · rw [starts]
        exact silent rfl (by simp [Monitor.isLost, Monitor.start])
      · rw [same]
        exact ⟨order, tells stopped⟩
      · exact (stopped ▸ turn).tells order (tells stopped)

/-- Once the token has fired, nothing is emitted any more. -/
theorem signals_run_of_stopped (c : Settings) (xs ys : List Move)
    (once : (xs ++ ys).countP Move.isStart ≤ 1) (stopped : (({} : System).run c xs).isStopped 0 = true) :
    (({} : System).run c (xs ++ ys)).monitor.signals = (({} : System).run c xs).monitor.signals := by
  suffices h : (({} : System).run c (xs ++ ys)).isStopped 0 = true ∧
      (({} : System).run c (xs ++ ys)).monitor.signals = (({} : System).run c xs).monitor.signals from h.2
  induction ys using List.reverseRecOn with
  | nil => exact ⟨by rwa [List.append_nil], by rw [List.append_nil]⟩
  | append_singleton ys m ih =>
    rw [← List.append_assoc] at once ⊢
    obtain ⟨stopped, same⟩ := ih (by rw [List.countP_append] at once; exact Nat.le_of_add_right_le once)
    have single := single_run c (xs ++ ys) (by rw [List.countP_append] at once; exact Nat.le_of_add_right_le once)
    have starts : ((({} : System).run c (xs ++ ys)).step c m).starts ≤ 1 := by
      rw [← run_concat, starts_run, Nat.zero_add]
      exact once
    rw [run_concat]
    exact ⟨(carries_step _ m).stopped 0 stopped, (single.signals_of_stopped starts stopped).trans same⟩

/-- A monitor that is started once tells the story of its link in order: a loss first, after a loss its end
in one of two ways, after a failed recovery a late return or the next loss, after a return the next loss.
The last signal agrees with the state until the stop token fires; from then on there are no signals. -/
theorem event_protocol (c : Settings) (ms : List Move) (once : ms.countP Move.isStart ≤ 1) :
    let s := ({} : System).run c ms
    s.monitor.signals.IsChain (fun a b => a.leadsTo b = true) ∧
      (∀ e, s.monitor.signals.head? = some e → e = .disconnected) ∧
      (s.isStopped 0 = false →
        (s.monitor.link = .reconnecting ↔ s.monitor.signals.getLast? = some .disconnected) ∧
          (s.monitor.link = .disconnected ↔ s.monitor.signals.getLast? = some .reconnectFailed)) ∧
      ∀ xs ys, ms = xs ++ ys → (({} : System).run c xs).isStopped 0 = true →
        s.monitor.signals = (({} : System).run c xs).monitor.signals := by
  obtain ⟨order, tells⟩ := in_order_run c ms once
  refine ⟨order.chain, order.first, fun runs => ⟨(tells runs).lost, (tells runs).givenUp⟩, ?_⟩
  rintro xs ys rfl stopped
  exact signals_run_of_stopped c xs ys once stopped

/-- Two losses: all attempts to mend the first one fail, and a periodic probe ends the second one. When the
link is lost again the monitor has been stopped: its state says so, and its signals do not. -/
theorem event_protocol_two_losses :
    let c : Settings := { maxRetries := 1, failureThreshold := 1 }
    let failed : Except LinkError Unit := .error (.unavailable "gateway down")
    let ms : List Move := [.start, .probed 0 failed 1, .wake 0, .answered 0 failed 2, .conclude 0,
      .probed 0 failed 3, .probed 0 (.ok ()) 4, .stop]
    let late : Move := .probed 0 failed 5
    (({} : System).run c (ms ++ [late])).monitor.link = .reconnecting ∧
      (({} : System).run c ms).monitor.signals =
        [.disconnected, .reconnectFailed, .disconnected, .reconnected] ∧
      (({} : System).run c (ms ++ [late])).monitor.signals = (({} : System).run c ms).monitor.signals := by
  intro c failed ms late
  have once : (ms ++ [late]).countP Move.isStart ≤ 1 := by decide
  have fired : (({} : System).run c ms).isStopped 0 = true := by decide
  have silent := (event_protocol c (ms ++ [late]) once).2.2.2
  exact ⟨by decide, by decide, silent ms [late] rfl fired⟩

end System

end Courier.Health
