/-
# Courier.Audit.Logger -- events written to the audit trail

The logger takes events from the channel one by one and writes each to the store. It ends when every
sender is gone and the buffer is empty, or when it is told to stop; then it first closes the channel
and writes what is still in the buffer. A write that is refused is not repeated.
-/
import Courier.Audit.Channel
import Courier.Store.Disk

namespace Courier.Audit

/-- Writes one event to the audit trail, if the store takes it. -/
def log (d : Disk) (e : Event) (now : Int) : Disk :=
  (d.logEvent (e.entry now)).2

inductive Logger where
  | running
  /-- Told to stop; the channel is closed and its buffer is being written. -/
  | flushing
  | done
deriving DecidableEq, Repr

/-- The channel with the logger at its end. -/
structure Pipeline where
  channel : Channel
  logger : Logger := .running
  /-- The events that the logger has taken, the first one first. -/
  logged : List Event := []
deriving Repr

namespace Pipeline

/-- One step of the pipeline. -/
inductive Move where
  | record (e : Event)
  /-- The logger takes the oldest event. -/
  | take
  /-- The logger notices that it has been told to stop. -/
  | stop
  /-- The logger finds that no event will come any more. -/
  | finish

def step (p : Pipeline) : Move → Pipeline
  | .record e => { p with channel := p.channel.record e }
  | .take =>
    match p.logger, p.channel.receive with
    | .done, _ => p
    | _, (.event e, channel) => { p with channel, logged := p.logged ++ [e] }
    | _, _ => p
  | .stop =>
    match p.logger with
    | .running => { p with channel := { p.channel with accepting := false }, logger := .flushing }
    | _ => p
  | .finish =>
    match p.logger with
    | .done => p
    | .running =>
      if p.channel.buffer.isEmpty && !p.channel.hasSender then
        { p with channel := { p.channel with accepting := false }, logger := .done }
      else p
    | .flushing => if p.channel.buffer.isEmpty then { p with logger := .done } else p

def run (p : Pipeline) (moves : List Move) : Pipeline :=
  moves.foldl step p

/-- The logger works until it has to wait: everything in the buffer is taken, and if it has been
told to stop, or no sender is left, it ends. -/
def settle (p : Pipeline) (told : Bool) : Pipeline :=
  let p := p.run (List.replicate p.channel.buffer.length .take)
  if told then p.run [.stop, .finish] else p.step .finish

end Pipeline

end Courier.Audit
