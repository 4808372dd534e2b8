/-
# Courier.Task.Transfer -- what a task carries

The payload of a task names a source and a destination. Both are opaque to everything but the
fetcher and the storage that a task's kind pairs. A payload is the JSON text of an object with these
two members.
-/
import Courier.Json.Shape
import Courier.Task.Failure

namespace Courier

/-- A source and a destination. -/
structure Transfer where
  source : String
  destination : String
deriving DecidableEq, Repr

namespace Transfer

def toJson (t : Transfer) : Json :=
  .obj [("source", .str t.source), ("destination", .str t.destination)]

/-- The payload bytes of a transfer. -/
def encode (t : Transfer) : Bytes :=
  Utf8.encode t.toJson.text

/-- A transfer that is being read. -/
structure Part where
  source : Option String := none
  destination : Option String := none

def shape : Json.Shape Part Transfer where
  name := "TransferPayload"
  start := {}
  fields := [
    { name := "source"
      isSet := fun p => p.source.isSome
      read := fun p s => (Json.string s).map fun (x, s) => ({ p with source := some x }, s) },
    { name := "destination"
      isSet := fun p => p.destination.isSome
      read := fun p s => (Json.string s).map fun (x, s) => ({ p with destination := some x }, s) }]
  finish := fun p => do
    let source ← Json.required "source" p.source
    let destination ← Json.required "destination" p.destination
    return ⟨source, destination⟩

/-- The transfer that a payload describes. -/
def read (payload : Bytes) : Except Json.Flaw Transfer :=
  Json.readAll shape.reader payload

/-- The transfer that a payload describes, or the failure of the attempt that needed it. -/
def decode (payload : Bytes) : Except Failure Transfer :=
  (read payload).mapError fun flaw =>
    ⟨.invalidPayload, "malformed transfer payload: " ++ flaw.message⟩

end Transfer

end Courier
