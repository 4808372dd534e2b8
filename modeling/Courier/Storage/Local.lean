/-
# Courier.Storage.Local -- outputs stored below a base directory

An output is written to a file beside its destination, whose name has `.part` at its end, and takes
the name of the destination only when its stream has ended. A stream that fails leaves nothing, and so
does one that the disk does not take; one that is cancelled leaves the part, which a rollback removes
together with the destination.

A `Put` is one transfer on its way, as a state that changes in single file operations, so that several
of them can work on one volume at the same time. `put` lets one run to its end alone.
-/
import Courier.Files.Volume

namespace Courier.Storage

/-! ## Destinations -/

/-- Why an output is not stored. -/
inductive Problem where
  /-- The destination may lead out of the base directory. -/
  | escapes (destination : String)
  /-- The destination has no name in it. -/
  | nameless (destination : String)
  | stream (f : Failure)
  | system (f : Fault)
deriving DecidableEq, Repr

/-- The failure that the transfer reports. -/
def Problem.failure : Problem → Failure
  | .escapes d => ⟨.invalidPayload, "destination escapes storage base: " ++ d⟩
  | .nameless d => ⟨.invalidPayload, "empty destination: '" ++ d ++ "'"⟩
  | .stream f => f
  | .system f => f.failure

/-- The path of a destination below a base directory. -/
def resolve (base : Path) (destination : String) : Except Problem Path :=
  let p := Path.ofText destination
  if p.isAbsolute || p.segments.contains ".." then .error (.escapes destination)
  else if p.names.isEmpty then .error (.nameless destination)
  else .ok (base.join p)

/-- Where an output is written before it is complete. -/
def partPath (target : Path) : Path :=
  target.withLastName (target.lastName?.getD "" ++ ".part")

/-! ## Single transfers -/

/-- What comes next in a transfer. -/
inductive Stage where
  /-- The directory of the destination is to be made. -/
  | preparing
  /-- The part is to be opened. -/
  | opening
  | writing (inode offset : Nat)
  /-- The stream could not be stored and the part is to be removed. -/
  | cleaning (problem : Problem)
  /-- The part is to take the name of the destination. -/
  | renaming (written : Nat)
  | done (result : Except Problem Nat)
deriving Repr

/-- What comes after a stream that could not be stored: only a cancelled one leaves its part. -/
def Problem.aftermath (problem : Problem) : Stage :=
  if problem.failure.isCancelled then .done (.error problem) else .cleaning problem

/-- A transfer on its way: its paths, the rest of its stream, and what comes next. -/
structure Put where
  target : Path
  stream : List (Except Failure Bytes)
  stage : Stage := .preparing
deriving Repr

namespace Put

def part (p : Put) : Path := partPath p.target

/-- The next file operation of a transfer. -/
def step (v : Volume) (p : Put) : Volume × Put :=
  match p.stage with
  | .preparing =>
    match p.target.parent? with
    | none => (v, { p with stage := .opening })
    | some parent =>
      match v.ensureDirectory [] parent with
      | (.ok (), v) => (v, { p with stage := .opening })
      | (.error e, v) => (v, { p with stage := .done (.error (.system e)) })
  | .opening =>
    match v.create [] p.part with
    | .ok (inode, v) => (v, { p with stage := .writing inode 0 })
    | .error e => (v, { p with stage := .done (.error (.system e)) })
  | .writing inode offset =>
    match p.stream with
    | [] =>
      match v.flush with
      | (.ok (), v) => (v, { p with stage := .renaming offset })
      | (.error e, v) => (v, { p with stage := Problem.aftermath (.system e) })
    | .ok chunk :: rest =>
      match v.write inode offset chunk with
      | (.ok (), v) =>
        (v, { p with stream := rest, stage := .writing inode (offset + chunk.length) })
      | (.error e, v) => (v, { p with stream := rest, stage := Problem.aftermath (.system e) })
    | .error f :: rest =>
      (v, { p with stream := rest, stage := Problem.aftermath (.stream f) })
  | .cleaning problem =>
    -- a part that cannot be removed stays; the first problem is what is reported
    let v := (v.removeIfPresent [] p.part).toOption.getD v
    (v, { p with stage := .done (.error problem) })
  | .renaming written =>
    match v.rename [] p.part p.target with
    | .ok v => (v, { p with stage := .done (.ok written) })
    | .error e => (v, { p with stage := .done (.error (.system e)) })
  | .done _ => (v, p)

/-- A number of operations, one after the other. -/
def steps : Nat → Volume → Put → Volume × Put
  | 0, v, p => (v, p)
  | n + 1, v, p =>
    let (v, p) := p.step v
    steps n v p

/-- No transfer takes more operations than this. -/
def bound (p : Put) : Nat := p.stream.length + 4

def result (p : Put) : Except Problem Nat :=
  match p.stage with
  | .done result => result
  | _ => .ok 0

end Put

/-! ## Outputs -/

/-- Stores a stream at a destination; returns the number of bytes. -/
def put (base : Path) (v : Volume) (stream : List (Except Failure Bytes)) (destination : String) :
    Except Problem Nat × Volume :=
  match resolve base destination with
  | .error e => (.error e, v)
  | .ok target =>
    let p : Put := { target, stream }
    let (v, p) := Put.steps p.bound v p
    (p.result, v)

/-- Outputs can be removed again. -/
def canRollBack : Bool := true

/-- Removes what a transfer may have left at a destination: the part, then the destination. -/
def rollback (base : Path) (v : Volume) (destination : String) : Except Problem Unit × Volume :=
  match resolve base destination with
  | .error e => (.error e, v)
  | .ok target =>
    match v.removeIfPresent [] (partPath target) with
    | .error e => (.error (.system e), v)
    | .ok v =>
      match v.removeIfPresent [] target with
      | .error e => (.error (.system e), v)
      | .ok v => (.ok (), v)

end Courier.Storage
