/-
# Courier.Audit.Desk -- the audit channel with both of its ends in hand

Whoever holds both ends of the channel can send and receive at will, give up either end, or let the
logger have the receiving one. After that, or once it has been given up, there is no receiver.
-/
import Courier.Audit.Logger

namespace Courier.Audit

structure Desk where
  channel : Channel
  hasReceiver : Bool := true
  disk : Disk := {}
deriving Repr

namespace Desk

/-- Sends an event a number of times; the number of events dropped so far, if there is still a
sender. -/
def record (d : Desk) (e : Event) (times : Nat) : Option Nat × Desk :=
  if d.channel.hasSender then
    let channel := (List.replicate times e).foldl Channel.record d.channel
    (some channel.dropped, { d with channel })
  else (none, d)

/-- Receives an event, if there is still a receiver. -/
def receive (d : Desk) : Option Channel.Received × Desk :=
  if d.hasReceiver then
    let (found, channel) := d.channel.receive
    (some found, { d with channel })
  else (none, d)

/-- Gives up the sending end. -/
def dropSender (d : Desk) : Desk :=
  { d with channel := { d.channel with hasSender := false } }

/-- Gives up the receiving end, and with it what is still in the channel. -/
def dropReceiver (d : Desk) : Desk :=
  { d with channel := { d.channel with accepting := false, buffer := [] }, hasReceiver := false }

/-- Lets the logger work to its end, if there is still a receiver for it. It ends because it is told
to, or because the sender is given up. -/
def runLogger (d : Desk) (told : Bool) (now : Int) : Option Desk :=
  if d.hasReceiver then
    let d := if told then d else d.dropSender
    let p := ({ channel := d.channel } : Pipeline).settle told
    some {
      channel := p.channel
      hasReceiver := false
      disk := p.logged.foldl (fun disk e => log disk e now) d.disk }
  else none

end Desk

end Courier.Audit
