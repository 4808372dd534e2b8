/-
# Courier.Task.Failure -- why an attempt did not succeed

A failure has a kind, which decides whether another attempt makes sense, and a message for people.
Failures of the operating system are sorted into these kinds by `ofSystem`.
-/

namespace Courier

/-- The kinds of failure. -/
inductive FailureKind where
  | network
  | timeout
  | notFound
  | permission
  | invalidPayload
  | storage
  | cancelled
  | unknown
deriving DecidableEq, Repr

namespace FailureKind

def all : List FailureKind :=
  [.network, .timeout, .notFound, .permission, .invalidPayload, .storage, .cancelled, .unknown]

/-- May another attempt succeed where this one failed? -/
def isRetryable : FailureKind → Bool
  | .network | .timeout | .storage | .unknown => true
  | .notFound | .permission | .invalidPayload | .cancelled => false

def name : FailureKind → String
  | .network => "network"
  | .timeout => "timeout"
  | .notFound => "not_found"
  | .permission => "permission"
  | .invalidPayload => "invalid_payload"
  | .storage => "storage"
  | .cancelled => "cancelled"
  | .unknown => "unknown"

def ofName? (s : String) : Option FailureKind :=
  all.find? fun k => k.name == s

theorem ofName?_name (k : FailureKind) : ofName? k.name = some k := by
  cases k <;> decide

/-- What the operating system says about a failed file operation. -/
inductive SystemCause where
  | notFound
  | permissionDenied
  | timedOut
  | other
deriving DecidableEq, Repr

/-- A missing file is gone for good and a refused one stays refused; what else a disk reports may
pass. -/
def ofSystem : SystemCause → FailureKind
  | .notFound => .notFound
  | .permissionDenied => .permission
  | .timedOut => .timeout
  | .other => .storage

end FailureKind

/-- The failure of one attempt. -/
structure Failure where
  kind : FailureKind
  message : String
deriving DecidableEq, Repr

namespace Failure

/-- The failure of an attempt that was told to stop. -/
def cancelled : Failure := ⟨.cancelled, "cancelled"⟩

def isRetryable (f : Failure) : Bool := f.kind.isRetryable

def isCancelled (f : Failure) : Bool := f.kind == .cancelled

/-- The text that is stored with a failed task. -/
def text (f : Failure) : String := f.kind.name ++ ": " ++ f.message

end Failure

end Courier
