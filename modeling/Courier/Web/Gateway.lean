/-
# Courier.Web.Gateway -- the chat gateway behind two web addresses

One address is asked to see whether the gateway is there, the other one takes messages. A message that
the gateway does not want is rejected; whatever else goes wrong means that the gateway is not
available.
-/
import Courier.Health.Monitor
import Courier.Web.Network

namespace Courier.Web

open Health (LinkError)

structure Gateway where
  probeUrl : String
  messageUrl : String
deriving DecidableEq, Repr

/-- Why the gateway does not answer as it should. -/
inductive GatewayError where
  /-- The request failed, or could not be made. -/
  | failed (text : String)
  | unhealthy (c : StatusCode)
  | rejected (recipient : Int) (c : StatusCode)
  | undelivered (recipient : Int) (c : StatusCode)
deriving DecidableEq, Repr

/-- What the error says about the link. -/
def GatewayError.link : GatewayError → LinkError
  | .failed text => .unavailable text
  | .unhealthy c => .unavailable ("health check returned " ++ c.text)
  | .rejected recipient c =>
    .rejected ("message to " ++ toString recipient ++ " rejected with " ++ c.text)
  | .undelivered recipient c =>
    .unavailable ("message to " ++ toString recipient ++ " failed with " ++ c.text)

namespace Gateway

/-- Makes a request to an address in a text. -/
def ask (n : Network) (method : Method) (url : String) (body : Option Json) :
    Except GatewayError Reply :=
  match Address.ofText? url with
  | none => .error (.failed "builder error")
  | some address => (n.send { method, address, body }).mapError fun l => .failed l.text

/-- Is the gateway there? -/
def probe (n : Network) (g : Gateway) : Except GatewayError Unit := do
  let reply ← ask n .get g.probeUrl none
  if reply.status.isSuccess then return () else throw (.unhealthy reply.status)

/-- What a message carries. -/
def message (recipient : Int) (text : String) : Json :=
  .obj [("recipient", .int recipient), ("text", .str text)]

/-- Sends a message. -/
def deliver (n : Network) (g : Gateway) (recipient : Int) (text : String) :
    Except GatewayError Unit := do
  let reply ← ask n .post g.messageUrl (some (message recipient text))
  if reply.status.isSuccess then return ()
  else if reply.status.isRequestFault then throw (.rejected recipient reply.status)
  else throw (.undelivered recipient reply.status)

end Gateway

end Courier.Web
