/-
# Courier.Web.Network -- requests and what they meet

A network is whatever answers requests: for each one a reply, or the way in which it got lost. `send`
adds what a client does on its own, which is to follow redirects, up to a limit.
-/
import Courier.Json.Value
import Courier.Web.Address
import Courier.Web.StatusCode

namespace Courier.Web

inductive Method where
  | get
  | post
deriving DecidableEq, Repr

def Method.name : Method → String
  | .get => "GET"
  | .post => "POST"

/-- A request; what it carries is a JSON text. -/
structure Request where
  method : Method
  address : Address
  body : Option Json := none

/-- How a request or a reply gets lost. -/
inductive Loss where
  | timeout
  /-- The peer is not there, or hangs up. -/
  | disconnected
  /-- One redirect too many. -/
  | tooManyRedirects
deriving DecidableEq, Repr

def Loss.text : Loss → String
  | .timeout => "operation timed out"
  | .disconnected => "error sending request"
  | .tooManyRedirects => "too many redirects"

/-- A reply. -/
structure Reply where
  status : StatusCode
  /-- Where a redirect leads. -/
  location : Option String := none
  /-- The number of bytes, if it was announced. -/
  size : Option Nat := none
  chunks : List Bytes := []
  /-- How the content ends before its end, if it does. -/
  cut : Option Loss := none

/-- What becomes of a request. -/
abbrev Network := Request → Except Loss Reply

/-- A network that is down. -/
def Network.down : Network := fun _ => .error .disconnected

/-- The most redirects that a request follows. -/
def maxRedirects : Nat := 10

/-- The request that a redirect asks for. Only the last two codes keep what is not a plain question. -/
def Request.redirected (r : Request) (status : StatusCode) (address : Address) : Request :=
  if status.value = 307 || status.value = 308 then { r with address }
  else { method := .get, address }

/-- Sends a request and follows redirects. A redirect that leads nowhere is the reply. -/
def Network.follow (n : Network) : Nat → Request → Except Loss Reply
  | left, r =>
    match n r with
    | .error e => .error e
    | .ok reply =>
      match if reply.status.isRedirect then reply.location.bind r.address.relative? else none with
      | none => .ok reply
      | some address =>
        match left with
        | 0 => .error .tooManyRedirects
        | left + 1 => n.follow left (r.redirected reply.status address)

/-- Sends a request. -/
def Network.send (n : Network) (r : Request) : Except Loss Reply :=
  n.follow maxRedirects r

end Courier.Web
