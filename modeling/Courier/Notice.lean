/-
# Courier.Notice -- messages to the operators

Operators hear about the link and about finished tasks by short messages on the chat gateway. Every
message goes once to every recipient; nobody waits for it and a message that cannot be delivered is
dropped. Without a gateway or without recipients nothing is sent at all.
-/

namespace Courier

/-- What operators are told. -/
inductive Notice where
  | disconnected
  | reconnected
  | reconnectFailed
  | taskFailed (title error : String)
  | taskSucceeded (title : String)
  | startup
  | shutdown
  | message (text : String)
deriving DecidableEq, Repr

def Notice.text : Notice → String
  | .disconnected => "⚠️ Connection lost, trying to reconnect..."
  | .reconnected => "✅ Connection restored"
  | .reconnectFailed => "❌ Reconnection failed, manual check required"
  | .taskFailed title error => "❌ Task failed: " ++ title ++ "\nError: " ++ error
  | .taskSucceeded title => "✅ Task completed: " ++ title
  | .startup => "🚀 Agent started"
  | .shutdown => "👋 Agent shutting down"
  | .message text => text

theorem Notice.text_taskFailed (title error : String) :
    (Notice.taskFailed title error).text = "❌ Task failed: " ++ title ++ "\nError: " ++ error := rfl

theorem Notice.text_taskSucceeded (title : String) :
    (Notice.taskSucceeded title).text = "✅ Task completed: " ++ title := rfl

/-- Who is told, if there is a gateway. -/
structure Notifier where
  hasGateway : Bool
  recipients : List Int
deriving Repr

namespace Notifier

/-- A notifier that never sends anything. -/
def disabled : Notifier := ⟨false, []⟩

def enabled (n : Notifier) : Bool :=
  n.hasGateway && !n.recipients.isEmpty

/-- The deliveries of one notice: recipient and text. -/
def deliveries (n : Notifier) (notice : Notice) : List (Int × String) :=
  if n.enabled then n.recipients.map fun r => (r, notice.text) else []

/-- The deliveries that arrive at a gateway that turns some recipients away. A delivery that fails
keeps no other one from arriving. -/
def delivered (n : Notifier) (notice : Notice) (rejects : Int → Bool) : List (Int × String) :=
  (n.deliveries notice).filter fun d => !rejects d.1

end Notifier

end Courier
