/-
# Courier.Audit.Channel -- the bounded way from the scheduler to the audit trail

Reporting an event must never block, so events go through a channel that holds a bounded number of
them. An event that finds the channel full, or nobody at its other end, is dropped and counted.

The channel itself is the runtime's, and what it promises is assumed here: it holds as many events as it
was made for, gives them out in the order in which they went in, each of them once, refuses an event at once when
it is full or its receiver has closed it, and lets a receiver take what is still in it after that. Counting what is
refused is the program's.
-/
import Courier.Task.Event

namespace Courier.Audit

structure Channel where
  capacity : Nat
  /-- The oldest event first. -/
  buffer : List Event := []
  /-- Does the receiver still take events? -/
  accepting : Bool := true
  /-- Is there still somebody who can send? -/
  hasSender : Bool := true
  dropped : Nat := 0
deriving Repr

namespace Channel

/-- A channel holds at least one event. -/
def room (c : Channel) : Nat := max c.capacity 1

/-- Takes an event into the buffer, or drops it. -/
def record (c : Channel) (e : Event) : Channel :=
  if c.accepting && decide (c.buffer.length < c.room) then { c with buffer := c.buffer ++ [e] }
  else { c with dropped := c.dropped + 1 }

/-- What a receiver finds. -/
inductive Received where
  | event (e : Event)
  | empty
  | closed
deriving Repr

/-- Takes the oldest event out of the buffer, if there is one. -/
def receive (c : Channel) : Received × Channel :=
  match c.buffer with
  | e :: rest => (.event e, { c with buffer := rest })
  | [] => (if c.hasSender && c.accepting then .empty else .closed, c)

def Received.message : Received → String
  | .event _ => ""
  | .empty => "receiving on an empty channel"
  | .closed => "receiving on a closed channel"

end Channel

end Courier.Audit
