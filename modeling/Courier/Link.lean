/-
# Courier.Link -- the state of the chat link

The health monitor keeps the state of the link to the chat gateway; the scheduler reads it and
dispatches only while the link is up.
-/

namespace Courier

/-- The state of the link to the chat gateway. -/
inductive Link where
  | unknown
  | connecting
  | connected
  | reconnecting
  | disconnected
deriving DecidableEq, Repr

namespace Link

def all : List Link := [.unknown, .connecting, .connected, .reconnecting, .disconnected]

def name : Link → String
  | .unknown => "unknown"
  | .connecting => "connecting"
  | .connected => "connected"
  | .reconnecting => "reconnecting"
  | .disconnected => "disconnected"

def ofName? (s : String) : Option Link :=
  all.find? fun l => l.name == s

theorem ofName?_name (l : Link) : ofName? l.name = some l := by
  cases l <;> decide

end Link

end Courier
