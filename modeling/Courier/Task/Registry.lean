/-
# Courier.Task.Registry -- which kinds of task are known

A registry maps the kind of a task to what handles it. It is fixed when the scheduler starts; a later
pairing for a kind replaces an earlier one. Kinds are kept in increasing order, so that their list
does not depend on the order in which they were registered.
-/

namespace Courier

/-- Handlers by task kind, in increasing order of the kinds. -/
structure Registry (α : Type) where
  pairs : List (String × α) := []
deriving Repr

namespace Registry

variable {α : Type}

def insertPair (kind : String) (handler : α) : List (String × α) → List (String × α)
  | [] => [(kind, handler)]
  | (k, h) :: rest =>
    if kind = k then (kind, handler) :: rest
    else if kind < k then (kind, handler) :: (k, h) :: rest
    else (k, h) :: insertPair kind handler rest

/-- Pairs a kind with a handler. -/
def insert (r : Registry α) (kind : String) (handler : α) : Registry α :=
  ⟨insertPair kind handler r.pairs⟩

def ofList (pairs : List (String × α)) : Registry α :=
  pairs.foldl (fun r p => r.insert p.1 p.2) {}

def get? (r : Registry α) (kind : String) : Option α :=
  r.pairs.lookup kind

def contains (r : Registry α) (kind : String) : Bool :=
  (r.get? kind).isSome

def kinds (r : Registry α) : List String :=
  r.pairs.map Prod.fst

end Registry

end Courier
