/-
# Courier.Health.Broadcast -- signals for whoever listens

Signals go to every subscriber through a ring that holds the latest sixteen. A subscriber that falls
behind finds out how many it has missed before it gets the ones that are left.
-/
import Courier.Health.Monitor

namespace Courier.Health

/-- How many signals wait for a subscriber at most. -/
def ringSize : Nat := 16

/-- What a subscriber finds: the number of signals that it missed, and the others, oldest first. -/
structure Reception where
  missed : Nat
  signals : List Signal
deriving DecidableEq, Repr

/-- What a subscriber finds that has not looked since these signals were sent, oldest first. -/
def receive (sent : List Signal) : Reception where
  missed := sent.length - ringSize
  signals := sent.drop (sent.length - ringSize)

end Courier.Health
