/-
# Courier.Web.Download -- sources that are web addresses

A source is fetched with one request. Its reply is a stream if it is a success; any other status
is a failure whose kind says whether another attempt may help.
-/
import Courier.Task.Failure
import Courier.Web.Network

namespace Courier.Web

/-- The kind of failure that a status stands for. -/
def StatusCode.failureKind (c : StatusCode) : FailureKind :=
  if c.value = 404 || c.value = 410 then .notFound
  else if c.value = 401 || c.value = 403 then .permission
  else if c.value = 408 || c.value = 504 then .timeout
  else if c.value = 429 || c.isPeerFault then .network
  else if c.isRequestFault then .invalidPayload
  else .unknown

def Loss.failureKind : Loss → FailureKind
  | .timeout => .timeout
  | .disconnected => .network
  | .tooManyRedirects => .unknown

def Loss.failure (l : Loss) : Failure := ⟨l.failureKind, l.text⟩

/-- Why a source cannot be fetched. -/
inductive DownloadError where
  /-- The source is no web address. -/
  | noAddress
  | lost (l : Loss)
  | status (source : String) (c : StatusCode)
deriving DecidableEq, Repr

def DownloadError.failure : DownloadError → Failure
  | .noAddress => ⟨.invalidPayload, "builder error"⟩
  | .lost l => l.failure
  | .status source c => ⟨c.failureKind, "GET " ++ source ++ " returned " ++ c.text⟩

/-- A source on its way: how many bytes were announced, and the stream. -/
structure Download where
  size : Option Nat
  stream : List (Except Failure Bytes)

/-- Fetches a source. -/
def Download.fetch (n : Network) (source : String) : Except DownloadError Download :=
  match Address.ofText? source with
  | none => .error .noAddress
  | some address =>
    match n.send { method := .get, address } with
    | .error l => .error (.lost l)
    | .ok reply =>
      if reply.status.isSuccess then
        let cut := reply.cut.toList.map fun l => .error l.failure
        .ok { size := reply.size, stream := reply.chunks.map .ok ++ cut }
      else .error (.status source reply.status)

end Courier.Web
