/-
# Courier.Proofs.Audit.Conservation -- no event is lost uncounted

Events enter the channel on one side while the logger takes them out on the other and writes them to the
store. Between the two nothing gets lost silently: an event that is reported is in the buffer, has been
taken, or has moved the drop counter, and the events that got in come out in the order in which they went
in (`Recording.nothing_lost_uncounted`).

What carries the argument is the pair of laws of one step: what was taken, followed by what is in the
buffer, grows by exactly the accepted event (`Recording.kept_step`), and the drop counter by exactly the
event that was not accepted (`Recording.dropped_step`). Closing the channel and writing what is left are
steps like any other, so it does not matter when the logger is told to stop.
-/
import Courier.Audit.Desk
import Courier.Proofs.Store.Disk
import Mathlib.Data.List.Induction

namespace Courier

/-! ## Events in the store -/

/-- The row says what happened, as the event does. -/
def Mark.Tells (mark : Mark) (e : Event) : Prop :=
  mark.taskId = e.taskId ∧ mark.type = .known e.type ∧ mark.details = e.details?.map Json.text

instance (mark : Mark) (e : Event) : Decidable (mark.Tells e) :=
  inferInstanceAs (Decidable (_ ∧ _ ∧ _))

namespace Audit

/-- A store that refuses nothing writes each event behind the ones it has. -/
theorem log_of_accepting {d : Disk} {marks : List Mark} (accepting : d.Accepting)
    (has : d.store.marks? = some marks) (e : Event) (now : Int) :
    ∃ mark : Mark, mark.Tells e ∧ (log d e now).store.marks? = some (marks ++ [mark]) ∧
      (log d e now).Accepting := by
  have accepted : d.store.logEvent (e.entry now) = .ok { d.store with marks? := some (marks ++
      [{ id := Store.nextMarkId marks, taskId := e.taskId, type := .known e.type, timestamp := now
         details := e.details?.map Json.text }]) } := by
    simp [Store.logEvent, Store.marks, has, Event.entry]
  obtain ⟨disk, written, hstore, still⟩ := accepting.write .logEvent
    (f := fun s => s.logEvent (e.entry now)) accepted
  have logged : log d e now = disk := by rw [log, Disk.logEvent, written]
  rw [logged, hstore]
  exact ⟨_, ⟨rfl, rfl, rfl⟩, rfl, still⟩

/-! ## The channel and the logger -/

/-- What a report does: the event goes to the end of the buffer, or the drop counter moves. -/
theorem Channel.record_cases (c : Channel) (e : Event) (bounded : c.buffer.length ≤ max c.capacity 1) :
    (c.buffer.length < max c.capacity 1 ∧ c.accepting = true ∧
        c.record e = { c with buffer := c.buffer ++ [e] }) ∨
      ((c.buffer.length = max c.capacity 1 ∨ c.accepting = false) ∧
        c.record e = { c with dropped := c.dropped + 1 }) := by
  unfold Channel.record Channel.room
  by_cases admitted : c.accepting = true ∧ c.buffer.length < max c.capacity 1
  · exact .inl ⟨admitted.2, admitted.1, by simp [admitted]⟩
  · refine .inr ⟨?_, if_neg (by simpa using admitted)⟩
    by_cases accepting : c.accepting = true
    · have full : ¬c.buffer.length < max c.capacity 1 := fun room => admitted ⟨accepting, room⟩
      exact .inl (by omega)
    · exact .inr (by simpa using accepting)

/-- A logger that has not ended takes the oldest event. -/
theorem Pipeline.take_of_waiting {p : Pipeline} {e : Event} {rest : List Event}
    (working : p.logger ≠ .done) (head : p.channel.buffer = e :: rest) :
    p.step .take = { p with channel := { p.channel with buffer := rest }, logged := p.logged ++ [e] } := by
  obtain ⟨channel, logger, logged⟩ := p
  have received : channel.receive = (.event e, { channel with buffer := rest }) := by
    unfold Channel.receive
    rw [show channel.buffer = e :: rest from head]
  cases logger with
  | running => simp [Pipeline.step, received]
  | flushing => simp [Pipeline.step, received]
  | done => exact absurd rfl working

/-- Where no event waits, the logger takes none. -/
theorem Pipeline.take_of_empty {p : Pipeline} (empty : p.channel.buffer = []) : p.step .take = p := by
  obtain ⟨channel, logger, logged⟩ := p
  have received : channel.receive.1 = .empty ∨ channel.receive.1 = .closed := by
    unfold Channel.receive
    rw [show channel.buffer = [] from empty]
    by_cases waits : channel.hasSender && channel.accepting
    · exact .inl (if_pos waits)
    · exact .inr (if_neg waits)
  cases logger <;> rcases received with h | h <;> simp only [Pipeline.step] <;> split <;> simp_all

theorem Pipeline.take_cases (p : Pipeline) :
    p.step .take = p ∨ ∃ e rest, p.logger ≠ .done ∧ p.channel.buffer = e :: rest ∧
      p.step .take =
        { p with channel := { p.channel with buffer := rest }, logged := p.logged ++ [e] } := by
  by_cases working : p.logger = .done
  · exact .inl (by simp [Pipeline.step, working])
  · cases head : p.channel.buffer with
    | nil => exact .inl (take_of_empty head)
    | cons e rest => exact .inr ⟨e, rest, working, rfl, take_of_waiting working head⟩

/-- A logger that is told to stop closes the channel, once. -/
theorem Pipeline.stop_cases (p : Pipeline) :
    p.step .stop = p ∨ p.step .stop =
      { p with channel := { p.channel with accepting := false }, logger := .flushing } := by
  obtain ⟨channel, logger, logged⟩ := p
  cases logger with
  | running => exact .inr rfl
  | flushing => exact .inl rfl
  | done => exact .inl rfl

/-- The logger ends when nothing is left and nothing can come any more. -/
theorem Pipeline.finish_cases (p : Pipeline)
    (closed : p.logger = .flushing → p.channel.accepting = false) :
    p.step .finish = p ∨ p.channel.buffer = [] ∧ (p.logger = .flushing ∨ p.channel.hasSender = false) ∧
      p.step .finish = { p with channel := { p.channel with accepting := false }, logger := .done } := by
  obtain ⟨channel, logger, logged⟩ := p
  cases logger with
  | running =>
    by_cases last : channel.buffer = [] ∧ channel.hasSender = false
    · exact .inr ⟨last.1, .inr last.2, by simp [Pipeline.step, last]⟩
    · exact .inl (if_neg (by simpa using last))
  | flushing =>
    by_cases empty : channel.buffer = []
    · have shut : channel = { channel with accepting := false } := by rw [← closed rfl]
      refine .inr ⟨empty, .inl rfl, ?_⟩
      rw [← shut]
      exact if_pos (by simpa using empty)
    · exact .inl (if_neg (by simpa using empty))
  | done => exact .inl rfl

/-! ## The pipeline and its store -/

/-- The pipeline together with the store that the logger writes to. -/
structure Recording where
  pipeline : Pipeline
  disk : Disk := {}
deriving Repr

namespace Recording

/-- One step of those who report events, or of the logger. -/
inductive Move where
  /-- Somebody reports an event. -/
  | record (e : Event)
  /-- The last of those who could report an event is gone. -/
  | leave
  /-- The logger takes the oldest event and writes it. -/
  | log (now : Int)
  /-- The logger notices that it has been told to stop. -/
  | stop
  /-- The logger finds that no event will come any more. -/
  | finish
deriving DecidableEq

/-- A channel of some capacity with nothing in it, and a store. -/
def opened (capacity : Nat) (disk : Disk) : Recording where
  pipeline := { channel := { capacity } }
  disk := disk

/-- The event that a move reports. Where nobody is left, nobody reports. -/
def reported? (r : Recording) : Move → Option Event
  | .record e => if r.pipeline.channel.hasSender then some e else none
  | _ => none

def step (r : Recording) : Move → Recording
  | .record e =>
    if r.pipeline.channel.hasSender then { r with pipeline := r.pipeline.step (.record e) } else r
  | .leave =>
    { r with pipeline := { r.pipeline with channel := { r.pipeline.channel with hasSender := false } } }
  | .log now =>
    let pipeline := r.pipeline.step .take
    let taken := pipeline.logged.drop r.pipeline.logged.length
    { pipeline, disk := taken.foldl (fun disk e => Audit.log disk e now) r.disk }
  | .stop => { r with pipeline := r.pipeline.step .stop }
  | .finish => { r with pipeline := r.pipeline.step .finish }

def run (r : Recording) (moves : List Move) : Recording :=
  moves.foldl step r

/-- The events that are reported in a run. -/
def reported : Recording → List Move → List Event
  | _, [] => []
  | r, m :: ms => (r.reported? m).toList ++ reported (r.step m) ms

/-- The event that a move reports without moving the drop counter. -/
def accepted? (r : Recording) (m : Move) : Option Event :=
  if (r.step m).pipeline.channel.dropped = r.pipeline.channel.dropped then r.reported? m else none

/-- The events of a run that are reported without moving the drop counter. -/
def accepted : Recording → List Move → List Event
  | _, [] => []
  | r, m :: ms =>
    (r.accepted? m).toList ++ accepted (r.step m) ms

/-- The events that got in: those that were taken, and behind them those in the buffer. -/
def kept (r : Recording) : List Event :=
  r.pipeline.logged ++ r.pipeline.channel.buffer

variable {r : Recording}

@[simp] theorem run_nil (r : Recording) : r.run [] = r := rfl

@[simp] theorem run_cons (r : Recording) (m : Move) (ms : List Move) :
    r.run (m :: ms) = (r.step m).run ms := rfl

theorem run_append (r : Recording) (ms ms' : List Move) : r.run (ms ++ ms') = (r.run ms).run ms' :=
  List.foldl_append

/-! ## One step -/

/-- Is there nobody to take an event, or no room for it? -/
def Full (r : Recording) : Prop :=
  r.pipeline.channel.buffer.length = max r.pipeline.channel.capacity 1 ∨
    r.pipeline.channel.accepting = false

instance (r : Recording) : Decidable r.Full := inferInstanceAs (Decidable (_ ∨ _))

/-- What holds of every recording that was opened once. -/
structure Sound (capacity : Nat) (r : Recording) : Prop where
  capacity : r.pipeline.channel.capacity = capacity
  bounded : r.pipeline.channel.buffer.length ≤ max r.pipeline.channel.capacity 1
  /-- A logger that has noticed that it has to stop, or has ended, lets no event in. -/
  closed : r.pipeline.logger ≠ .running → r.pipeline.channel.accepting = false
  /-- A logger that has ended leaves nothing behind. -/
  emptied : r.pipeline.logger = .done → r.pipeline.channel.buffer = []

/-- Everything that one step can do. -/
inductive Turn (r : Recording) : Move → Recording → Prop where
  | idle {m : Move} (silent : r.reported? m = none) : Turn r m r
  | admitted {e : Event} (sender : r.pipeline.channel.hasSender = true)
      (room : r.pipeline.channel.buffer.length < max r.pipeline.channel.capacity 1)
      (accepting : r.pipeline.channel.accepting = true) :
      Turn r (.record e)
        { r with pipeline := { r.pipeline with
          channel := { r.pipeline.channel with buffer := r.pipeline.channel.buffer ++ [e] } } }
  | dropped {e : Event} (sender : r.pipeline.channel.hasSender = true) (full : r.Full) :
      Turn r (.record e)
        { r with pipeline := { r.pipeline with
          channel := { r.pipeline.channel with dropped := r.pipeline.channel.dropped + 1 } } }
  | left :
      Turn r .leave
        { r with pipeline := { r.pipeline with channel := { r.pipeline.channel with hasSender := false } } }
  | taken {e : Event} {rest : List Event} {now : Int} (working : r.pipeline.logger ≠ .done)
      (head : r.pipeline.channel.buffer = e :: rest) :
      Turn r (.log now)
        { pipeline := { r.pipeline with
            channel := { r.pipeline.channel with buffer := rest }
            logged := r.pipeline.logged ++ [e] }
          disk := Audit.log r.disk e now }
  | stopped :
      Turn r .stop
        { r with pipeline := { r.pipeline with
          channel := { r.pipeline.channel with accepting := false }, logger := .flushing } }
  | ended (empty : r.pipeline.channel.buffer = [])
      (last : r.pipeline.logger = .flushing ∨ r.pipeline.channel.hasSender = false) :
      Turn r .finish
        { r with pipeline := { r.pipeline with
          channel := { r.pipeline.channel with accepting := false }, logger := .done } }

theorem Sound.step_turn {capacity : Nat} (sound : r.Sound capacity) (m : Move) : r.Turn m (r.step m) := by
  cases m with
  | record e =>
    by_cases sender : r.pipeline.channel.hasSender = true
    · rw [show r.step (.record e) = { r with pipeline := r.pipeline.step (.record e) } from if_pos sender]
      rcases r.pipeline.channel.record_cases e sound.bounded with ⟨room, accepting, h⟩ | ⟨full, h⟩
      · rw [Pipeline.step, h]
        exact .admitted sender room accepting
      · rw [Pipeline.step, h]
        exact .dropped sender full
    · rw [show r.step (.record e) = r from if_neg sender]
      exact .idle (if_neg sender)
  | leave => exact .left
  | log now =>
    unfold step
    rcases r.pipeline.take_cases with h | ⟨e, rest, working, head, h⟩
    · simp only [h, List.drop_length, List.foldl_nil]
      exact .idle rfl
    · simp only [h, List.drop_left, List.foldl_cons, List.foldl_nil]
      exact .taken working head
  | stop =>
    unfold step
    rcases r.pipeline.stop_cases with h | h
    · rw [h]
      exact .idle rfl
    · rw [h]
      exact .stopped
  | finish =>
    unfold step
    rcases r.pipeline.finish_cases (fun flushing => sound.closed (by simp [flushing]))
      with h | ⟨empty, last, h⟩
    · rw [h]
      exact .idle rfl
    · rw [h]
      exact .ended empty last

theorem Turn.sound {r' : Recording} {m : Move} {capacity : Nat} (turn : r.Turn m r')
    (sound : r.Sound capacity) : r'.Sound capacity := by
  cases turn with
  | idle => exact sound
  | admitted sender room accepting =>
    refine ⟨sound.capacity, ?_, sound.closed, ?_⟩
    · simp only [List.length_append, List.length_singleton]
      omega
    · intro ended
      have shut := sound.closed (by rw [ended]; simp)
      rw [accepting] at shut
      cases shut
  | dropped => exact ⟨sound.capacity, sound.bounded, sound.closed, sound.emptied⟩
  | left => exact ⟨sound.capacity, sound.bounded, sound.closed, sound.emptied⟩
  | taken working head =>
    refine ⟨sound.capacity, ?_, sound.closed, fun ended => absurd ended working⟩
    have bounded := sound.bounded
    rw [head, List.length_cons] at bounded
    exact Nat.le_of_succ_le bounded
  | stopped => exact ⟨sound.capacity, sound.bounded, fun _ => rfl, fun ended => by cases ended⟩
  | ended empty => exact ⟨sound.capacity, sound.bounded, fun _ => rfl, fun _ => empty⟩

/-- The drop counter moves by one when an event is reported that finds the buffer full or the channel
closed, and at no other time. -/
theorem dropped_step {capacity : Nat} (sound : r.Sound capacity) (m : Move) :
    (r.step m).pipeline.channel.dropped = r.pipeline.channel.dropped +
      if (r.reported? m).isSome ∧ r.Full then 1 else 0 := by
  have turn := sound.step_turn m
  generalize r.step m = r' at turn ⊢
  cases turn with
  | idle silent => simp [silent]
  | admitted sender room accepting =>
    have vacant : ¬r.Full := by
      rintro (full | shut)
      · omega
      · rw [accepting] at shut
        cases shut
    simp [vacant]
  | dropped sender full => simp [reported?, sender, full]
  | left => simp [reported?]
  | taken => simp [reported?]
  | stopped => simp [reported?]
  | ended => simp [reported?]

/-- What was taken, followed by what is in the buffer, grows by the accepted event. -/
theorem kept_step {capacity : Nat} (sound : r.Sound capacity) (m : Move) :
    (r.step m).kept = r.kept ++ (r.accepted? m).toList := by
  have turn := sound.step_turn m
  unfold accepted? kept
  generalize r.step m = r' at turn ⊢
  cases turn with
  | idle silent => simp [silent]
  | admitted sender => simp [reported?, sender]
  | dropped => simp
  | left => simp [reported?]
  | taken working head => simp [reported?, head]
  | stopped => simp [reported?]
  | ended => simp [reported?]

/-- An event that is reported is accepted or moves the drop counter. -/
theorem counted_step {capacity : Nat} (sound : r.Sound capacity) (m : Move) :
    (r.step m).pipeline.channel.dropped + (r.accepted? m).toList.length =
      r.pipeline.channel.dropped + (r.reported? m).toList.length := by
  have moved := dropped_step sound m
  unfold accepted?
  by_cases refused : (r.reported? m).isSome ∧ r.Full
  · obtain ⟨e, reported⟩ := Option.isSome_iff_exists.mp refused.1
    rw [if_pos refused] at moved
    simp [moved, reported]
  · rw [if_neg refused, Nat.add_zero] at moved
    simp [moved]

/-! ## Whole runs -/

theorem Sound.run {capacity : Nat} (sound : r.Sound capacity) (ms : List Move) :
    (r.run ms).Sound capacity := by
  induction ms generalizing r with
  | nil => exact sound
  | cons m ms ih => exact ih ((sound.step_turn m).sound sound)

theorem kept_run {capacity : Nat} (sound : r.Sound capacity) (ms : List Move) :
    (r.run ms).kept = r.kept ++ r.accepted ms := by
  induction ms generalizing r with
  | nil => simp [accepted]
  | cons m ms ih =>
    rw [run_cons, ih ((sound.step_turn m).sound sound), kept_step sound m, accepted, List.append_assoc]

theorem counted_run {capacity : Nat} (sound : r.Sound capacity) (ms : List Move) :
    (r.run ms).pipeline.channel.dropped + (r.accepted ms).length =
      r.pipeline.channel.dropped + (r.reported ms).length := by
  induction ms generalizing r with
  | nil => rfl
  | cons m ms ih =>
    have first := counted_step sound m
    have later := ih ((sound.step_turn m).sound sound)
    simp only [run_cons, accepted, reported, List.length_append]
    omega

/-- The store refuses nothing, and behind what it had it holds one row for each event that was taken. -/
structure Written (had : List Mark) (r : Recording) : Prop where
  accepting : r.disk.Accepting
  rows : ∃ marks, r.disk.store.marks? = some (had ++ marks) ∧
    List.Forall₂ Mark.Tells marks r.pipeline.logged

theorem Turn.written {r' : Recording} {m : Move} {had : List Mark} (turn : r.Turn m r')
    (h : r.Written had) : r'.Written had := by
  cases turn with
  | taken working head =>
    obtain ⟨marks, has, told⟩ := h.rows
    obtain ⟨mark, tells, grown, still⟩ := log_of_accepting h.accepting has _ _
    refine ⟨still, marks ++ [mark], ?_, List.rel_append told (.cons tells .nil)⟩
    rw [grown, List.append_assoc]
  | idle => exact h
  | _ => exact ⟨h.accepting, h.rows⟩

theorem Written.run {had : List Mark} {capacity : Nat} (h : r.Written had) (sound : r.Sound capacity)
    (ms : List Move) : (r.run ms).Written had := by
  induction ms generalizing r with
  | nil => exact h
  | cons m ms ih =>
    have turn := sound.step_turn m
    exact ih (turn.written h) (turn.sound sound)

/-- Why a logger does not go on: it has been told to stop, or nobody is left to report anything. -/
theorem ended_run {capacity : Nat} (sound : r.Sound capacity) (running : r.pipeline.logger = .running)
    (ms : List Move) :
    ((r.run ms).pipeline.logger = .flushing → .stop ∈ ms) ∧
      ((r.run ms).pipeline.logger = .done →
        .stop ∈ ms ∨ (r.run ms).pipeline.channel.hasSender = false) := by
  -- What a logger does next depends on all of its past, so the induction is on the last move.
  induction ms using List.reverseRecOn with
  | nil => simp [running]
  | append_singleton ms m ih =>
    have turn := (sound.run ms).step_turn m
    rw [run_append, run_cons, run_nil]
    generalize (r.run ms).step m = r' at turn ⊢
    obtain ⟨told, ended⟩ := ih
    cases turn with
    | ended empty last =>
      refine ⟨fun flushing => (by cases flushing), fun _ => ?_⟩
      rcases last with flushing | alone
      · exact .inl (List.mem_append_left _ (told flushing))
      · exact .inr alone
    | stopped => exact ⟨fun _ => by simp, fun _ => by simp⟩
    | left => exact ⟨fun flushing => List.mem_append_left _ (told flushing), fun _ => .inr rfl⟩
    | _ =>
      refine ⟨fun flushing => List.mem_append_left _ (told flushing), fun done => ?_⟩
      exact (ended done).imp_left (List.mem_append_left _)

theorem sound_opened (capacity : Nat) (disk : Disk) : (opened capacity disk).Sound capacity where
  capacity := rfl
  bounded := Nat.zero_le _
  closed := fun stopped => absurd rfl stopped
  emptied := fun _ => rfl

/-- A channel of any capacity, a store that refuses nothing, and any order of reports, steps of the
logger and its end. At every moment the buffer holds at most as many events as it may, and the next move
drops an event only if it reports one and the buffer is full or the channel closed. The events that were
reported are as many as those that were written, those in the buffer and those that were dropped; what
was accepted is what was written and, behind it, what is in the buffer, and each event written has its row
in the store. Once the logger has ended the buffer is empty, and it ends because it was told to or because
nobody is left to report anything. -/
theorem nothing_lost_uncounted (capacity : Nat) {disk : Disk} {had : List Mark}
    (accepting : disk.Accepting) (has : disk.store.marks? = some had) (ms : List Move) :
    let r := (opened capacity disk).run ms
    let reported := (opened capacity disk).reported ms
    let accepted := (opened capacity disk).accepted ms
    r.pipeline.channel.capacity = capacity ∧
      r.pipeline.channel.buffer.length ≤ max capacity 1 ∧
      (∀ m, (r.step m).pipeline.channel.dropped = r.pipeline.channel.dropped +
        if (r.reported? m).isSome ∧ r.Full then 1 else 0) ∧
      reported.length =
        r.pipeline.logged.length + r.pipeline.channel.buffer.length + r.pipeline.channel.dropped ∧
      r.pipeline.logged ++ r.pipeline.channel.buffer = accepted ∧
      (∃ marks, r.disk.store.marks? = some (had ++ marks) ∧
        List.Forall₂ Mark.Tells marks r.pipeline.logged) ∧
      (r.pipeline.logger = .done →
        r.pipeline.channel.buffer = [] ∧ (.stop ∈ ms ∨ r.pipeline.channel.hasSender = false)) := by
  intro r reported accepted
  have start := sound_opened capacity disk
  have sound : r.Sound capacity := start.run ms
  have kept : r.pipeline.logged ++ r.pipeline.channel.buffer = accepted := kept_run start ms
  have written : r.Written had := Written.run ⟨accepting, [], by simpa [opened] using has, .nil⟩ start ms
  refine ⟨sound.capacity, ?_, dropped_step sound, ?_, kept, written.rows, ?_⟩
  · exact sound.capacity ▸ sound.bounded
  · have counted : r.pipeline.channel.dropped + accepted.length = 0 + reported.length :=
      counted_run start ms
    rw [← kept, List.length_append] at counted
    omega
  · intro done
    exact ⟨sound.emptied done, (ended_run start rfl ms).2 done⟩

/-- One event finds the buffer full, one is in it when the logger is told to stop, and one finds the
channel closed. -/
def crowdedRun : List Move :=
  [.record (.cancelled "a"), .record (.cancelled "b"), .log 1, .record (.cancelled "c"), .stop,
    .record (.cancelled "d"), .log 2, .finish]

theorem nothing_lost_in_crowdedRun :
    let r := (opened 0 {}).run crowdedRun
    r.pipeline.logged = [.cancelled "a", .cancelled "c"] ∧ r.pipeline.channel.dropped = 2 ∧
      ((opened 0 {}).reported crowdedRun).length = 2 + 0 + 2 ∧
      (∃ marks, r.disk.store.marks? = some ([] ++ marks) ∧
        List.Forall₂ Mark.Tells marks [.cancelled "a", .cancelled "c"]) ∧
      r.pipeline.channel.buffer = [] := by
  intro r
  obtain ⟨-, -, -, counted, -, rows, ended⟩ :=
    nothing_lost_uncounted 0 (by decide : Disk.Accepting {}) rfl crowdedRun
  have logged : r.pipeline.logged = [.cancelled "a", .cancelled "c"] := by decide +kernel
  have dropped : r.pipeline.channel.dropped = 2 := by decide +kernel
  have done : r.pipeline.logger = .done := by decide +kernel
  have empty := (ended done).1
  refine ⟨logged, dropped, ?_, logged ▸ rows, empty⟩
  rw [counted]
  show r.pipeline.logged.length + r.pipeline.channel.buffer.length + r.pipeline.channel.dropped = _
  rw [logged, empty, dropped]
  rfl

/-! ## The logger gets to its end -/

/-- The logger takes everything that is in the buffer. -/
theorem run_log {p : Pipeline} (working : p.logger ≠ .done) {buffer : List Event}
    (waiting : p.channel.buffer = buffer) (disk : Disk) (now : Int) :
    (Recording.mk p disk).run (List.replicate buffer.length (.log now)) =
      { pipeline := { p with channel := { p.channel with buffer := [] }, logged := p.logged ++ buffer }
        disk := buffer.foldl (fun disk e => Audit.log disk e now) disk } := by
  induction buffer generalizing p disk with
  | nil =>
    have same : p.channel = { p.channel with buffer := [] } := by rw [← waiting]
    simp [← same]
  | cons e rest ih =>
    have taken := Pipeline.take_of_waiting working waiting
    have logged : (Recording.mk p disk).step (.log now) =
        ⟨{ p with channel := { p.channel with buffer := rest }, logged := p.logged ++ [e] },
          Audit.log disk e now⟩ := by
      unfold step
      simp only [taken, List.drop_left, List.foldl_cons, List.foldl_nil]
    rw [List.length_cons, List.replicate_succ, run_cons, logged, ih (by exact working) rfl]
    simp

/-- The steps of a logger that is alone at its end of a channel, up to its own end. -/
def closing (told : Bool) (waiting : Nat) (now : Int) : List Move :=
  (if told then [] else [.leave]) ++ List.replicate waiting (.log now) ++
    if told then [.stop, .finish] else [.finish]

theorem pipeline_run_log (r : Recording) (n : Nat) (now : Int) :
    (r.run (List.replicate n (.log now))).pipeline = r.pipeline.run (List.replicate n .take) := by
  induction n generalizing r with
  | zero => rfl
  | succ n ih => exact ih (r.step (.log now))

/-- A logger that is let to its end gets there, told to stop or not, and what it leaves is what its
steps one by one leave. -/
theorem runLogger_of_receiver {d : Desk} (receiving : d.hasReceiver = true) (told : Bool) (now : Int) :
    let r := (Recording.mk { channel := d.channel } d.disk).run
      (closing told d.channel.buffer.length now)
    r.pipeline.logger = .done ∧ r.pipeline.channel.buffer = [] ∧
      d.runLogger told now = some { channel := r.pipeline.channel, hasReceiver := false, disk := r.disk } := by
  obtain ⟨channel, hasReceiver, disk⟩ := d
  have logged (channel : Channel) := run_log (p := { channel }) (by simp) rfl disk now
  have taken (channel : Channel) := pipeline_run_log ⟨{ channel }, disk⟩ channel.buffer.length now
  simp only [logged] at taken
  subst receiving
  cases told with
  | true =>
    simp only [closing, if_true, List.nil_append, run_append, logged, Desk.runLogger, Pipeline.settle,
      ← taken]
    exact ⟨rfl, rfl, rfl⟩
  | false =>
    have left : (Recording.mk { channel } disk).run [.leave] =
        ⟨{ channel := { channel with hasSender := false } }, disk⟩ := rfl
    simp only [closing, Bool.false_eq_true, if_false, run_append, left,
      logged { channel with hasSender := false }, Desk.runLogger, Desk.dropSender, Pipeline.settle, ← taken]
    exact ⟨rfl, rfl, rfl⟩

end Recording

end Audit

end Courier
