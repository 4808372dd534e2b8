/-
# Courier.Feed.Checkpoint -- a stream that can be stopped between two chunks

A source is asked for its next item again and again; each time it has none yet, gives one, or has
ended. A checkpointed stream puts the stop signal in front of a source: it looks at the signal before
it asks the source, so a stop wins over an item that is ready at the same time. A stop is delivered as
one failure, and after it the stream has ended whatever the source would still have.
-/
import Courier.Task.Failure
import Courier.Text.Utf8

namespace Courier.Feed

/-- What a source gives when it is asked. -/
inductive Poll where
  | pending
  | item (x : Except Failure Bytes)
  | finished
deriving Repr

/-- A source with states of type `σ`. -/
structure Source (σ : Type) where
  poll : σ → Poll × σ

/-- A checkpointed stream: the state of its source, or nothing once it has been stopped or has
ended. -/
abbrev Checkpointed (σ : Type) := Option σ

namespace Checkpointed

variable {σ : Type}

/-- Asks the stream for its next item, while the stop signal is as `fired` says. -/
def poll (source : Source σ) (fired : Bool) : Checkpointed σ → Poll × Checkpointed σ
  | none => (.finished, none)
  | some s =>
    if fired then (.item (.error Failure.cancelled), none)
    else
      match source.poll s with
      | (.pending, s) => (.pending, some s)
      | (.item x, s) => (.item x, some s)
      | (.finished, _) => (.finished, none)

@[simp] theorem poll_none (source : Source σ) (fired : Bool) :
    poll source fired none = (.finished, none) := rfl

@[simp] theorem poll_fired (source : Source σ) (s : σ) :
    poll source true (some s) = (.item (.error Failure.cancelled), none) := rfl

end Checkpointed

end Courier.Feed
