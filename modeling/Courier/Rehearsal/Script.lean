/-
# Courier.Rehearsal.Script -- fetchers and storages that follow a script

A rehearsal runs a scheduler against collaborators whose behaviour is written down beforehand. A
source is a list of attempts; an attempt waits, then fails, or gives a stream that delivers chunks,
waits at a gate, fails or ends. A storage collects the chunks of a stream and may be told to
misbehave in one of a few ways.
-/
import Courier.Feed.Checkpoint

namespace Courier.Rehearsal

open Feed

/-! ## Sources -/

/-- One attempt at a source. -/
structure Attempt where
  delayMs : Nat := 0
  /-- The fetch waits until this gate is open. -/
  fetchGate : Option String := none
  fetchError : Option Failure := none
  chunks : List Bytes := []
  /-- The stream waits here after its chunks. -/
  gate : Option String := none
  error : Option Failure := none
deriving Repr

/-- Sources by name. -/
abbrev Script := List (String × List Attempt)

/-- The attempt that the `n`-th fetch of a source meets, counted from zero; the last one repeats. -/
def Script.attempt? (script : Script) (name : String) (n : Nat) : Option Attempt := do
  let attempts ← script.lookup name
  match attempts[n]? with
  | some a => some a
  | none => attempts.getLast?

/-- A fetch of a name that no source has. -/
def noSuchSource (name : String) : Failure :=
  ⟨.notFound, "no such source " ++ name⟩

def isOpen (gates : List String) (gate : Option String) : Bool :=
  match gate with
  | none => true
  | some g => gates.contains g

/-- What is left of the stream of an attempt. -/
structure Rest where
  chunks : List Bytes
  gate : Option String
  error : Option Failure
deriving Repr

def Attempt.rest (a : Attempt) : Rest := ⟨a.chunks, a.gate, a.error⟩

/-- The stream of an attempt while these gates are open: chunks, the gate, the failure, the end. -/
def stream (gates : List String) : Source Rest where
  poll s :=
    match s.chunks with
    | chunk :: chunks => (.item (.ok chunk), { s with chunks })
    | [] =>
      if !isOpen gates s.gate then (.pending, s)
      else
        match s.error with
        | some e => (.item (.error e), { s with gate := none, error := none })
        | none => (.finished, { s with gate := none })

/-! ## Storages -/

/-- How the storage of a kind behaves. -/
structure Backend where
  rollback : Bool := false
  /-- Rollbacks are made and fail. -/
  rollbackError : Option Failure := none
  /-- Fails before it reads anything. -/
  putError : Option Failure := none
  /-- Takes a stop for the end of the stream. -/
  ignoreCancel : Bool := false
  /-- Never answers once the stream has ended or failed. -/
  stuck : Bool := false
deriving Repr

/-- Where a storage stands in one stream. -/
inductive Intake where
  | reading (stream : Checkpointed Rest) (body : Bytes)
  /-- Never answers. -/
  | stuck
  | answered (result : Except Failure Bytes)
deriving Repr

/-- The storage at the start of a stream. -/
def Backend.start (b : Backend) (a : Attempt) : Intake :=
  match b.putError with
  | some e => .answered (.error e)
  | none => .reading (some a.rest) []

/-- Asks for one more item and acts on it. `none` if there is nothing to act on yet. -/
def Backend.read (b : Backend) (gates : List String) (told : Bool) : Intake → Option Intake
  | .reading s body =>
    match s.poll (stream gates) told with
    | (.pending, _) => none
    | (.item (.ok chunk), s) => some (.reading s (body ++ chunk))
    | (.item (.error e), _) =>
      if b.stuck then some .stuck
      else if b.ignoreCancel && e.isCancelled then some (.answered (.ok body))
      else some (.answered (.error e))
    | (.finished, _) => if b.stuck then some .stuck else some (.answered (.ok body))
  | .stuck | .answered _ => none

end Courier.Rehearsal
