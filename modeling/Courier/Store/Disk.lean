/-
# Courier.Store.Disk -- a store that refuses some operations

Disks fail. What the scheduler may see of that is a store operation that is refused and changes
nothing. An `Outage` fixes the verdicts for the coming operations of one sort: a finite pattern, and
what holds after it. Outages are arbitrary data, so a statement about every disk is a statement about
every pattern of refusals.
-/
import Courier.Store.Basic

namespace Courier

/-- The sorts of operation that an outage can affect. -/
inductive Operation where
  | put
  | listPending
  | logEvent
  | update (status : Status)
deriving DecidableEq, Repr

/-- Verdicts for the coming operations: those of `next` first, then `rest` for ever. `true` stands
for a refusal. -/
structure Outage where
  next : List Bool := []
  rest : Bool := false
deriving DecidableEq, Repr

namespace Outage

def always : Outage := ⟨[], true⟩

/-- The next operations are refused, this many of them. -/
def times (n : Nat) : Outage := ⟨List.replicate n true, false⟩

/-- The verdict on one operation, and the outage after it. -/
def take (o : Outage) : Bool × Outage :=
  match o.next with
  | [] => (o.rest, o)
  | verdict :: next => (verdict, { o with next })

end Outage

/-- A store together with the outages of its disk; operations not named are healthy. -/
structure Disk where
  store : Store := {}
  outages : List (Operation × Outage) := []
deriving DecidableEq, Repr

namespace Disk

/-- What a refused operation reports. -/
def detached : Store.Error := .unavailable "disk detached"

/-- Sets the outage of one sort of operation. -/
def setOutage (d : Disk) (op : Operation) (o : Outage) : Disk :=
  { d with outages := (op, o) :: d.outages.filter fun p => p.1 ≠ op }

/-- No operation is refused any more. -/
def heal (d : Disk) : Disk := { d with outages := [] }

/-- Is the next operation of this sort refused? -/
def consult (d : Disk) (op : Operation) : Bool × Disk :=
  match d.outages.lookup op with
  | none => (false, d)
  | some o => (o.take.1, d.setOutage op o.take.2)

@[simp] theorem store_setOutage (d : Disk) (op : Operation) (o : Outage) :
    (d.setOutage op o).store = d.store := rfl

@[simp] theorem store_consult (d : Disk) (op : Operation) : (d.consult op).2.store = d.store := by
  unfold consult
  split <;> rfl

/-- Runs a write: refused by the disk, refused by the store, or carried out. -/
def write (d : Disk) (op : Operation) (f : Store → Except Store.Error Store) :
    Except Store.Error Unit × Disk :=
  let (refused, d) := d.consult op
  if refused then (.error detached, d)
  else
    match f d.store with
    | .ok store => (.ok (), { d with store })
    | .error e => (.error e, d)

def put (d : Disk) (r : Record) : Except Store.Error Unit × Disk :=
  d.write .put fun s => s.put r

def updateStatus (d : Disk) (id : String) (status : Status) (error : String) (now : Int) :
    Except Store.Error Unit × Disk :=
  d.write (.update status) fun s => s.updateStatus id status error now

def logEvent (d : Disk) (e : Entry) : Except Store.Error Unit × Disk :=
  d.write .logEvent fun s => s.logEvent e

def listPending (d : Disk) : Except Store.Error (List Record) × Disk :=
  let (refused, d) := d.consult .listPending
  if refused then (.error detached, d) else (d.store.listPending, d)

/-- A write that is not carried out leaves the store as it was. -/
theorem store_write_of_error {d : Disk} {op : Operation} {f : Store → Except Store.Error Store}
    {e : Store.Error} (h : (d.write op f).1 = .error e) : (d.write op f).2.store = d.store := by
  unfold write at *
  simp only at *
  split at h
  · simp [*]
  · split at h
    · cases h
    · simp [*]

/-- A write that is carried out leaves the store that the operation makes of the old one. -/
theorem store_write_of_ok {d : Disk} {op : Operation} {f : Store → Except Store.Error Store}
    (h : (d.write op f).1 = .ok ()) : f d.store = .ok (d.write op f).2.store := by
  unfold write at *
  simp only at *
  split at h
  · cases h
  · split at h
    · rename_i hs
      simpa [*] using hs
    · cases h

end Disk

end Courier
