/-
# Courier.Store.Opened -- task databases in files

The task database lives in one file of a volume. Opening it makes the file if it is missing, and
compares the tables of one that is there with those that the program needs. A file of no bytes is a
database without tables; any other file that no store was written to is no database.
-/
import Courier.Files.Volume
import Courier.Store.Edits

namespace Courier.Store

/-- What stands where a database file is looked for. -/
def placeOf (v : Volume) (cwd : Location) (p : Path) : Schema.Place :=
  match v.stat cwd p with
  | .ok (_, .directory) => .directory
  | .ok (_, .file inode) =>
    match v.content inode with
    | .database s => .database s.catalogue
    | .bytes [] => .database {}
    | .bytes _ => .garbage
  | .error .notFound => if (v.create cwd p).toOption.isSome then .missing else .unreachable
  | .error _ => .unreachable

/-- The store in a file; anything else holds no tasks. -/
def at? (v : Volume) (cwd : Location) (p : Path) : Option Store :=
  match v.read cwd p with
  | .ok (.database s) => some s
  | _ => none

/-- Writes a store into a file. -/
def save (v : Volume) (cwd : Location) (p : Path) (s : Store) : Volume :=
  match v.stat cwd p with
  | .ok (_, .file inode) => v.setContent inode (.database s)
  | .error .notFound =>
    match v.create cwd p with
    | .ok (inode, v) => v.setContent inode (.database s)
    | .error _ => v
  | _ => v

/-- Opens the task database in a file. -/
def openFile (v : Volume) (cwd : Location) (p : Path) : Except Schema.Error Store × Volume :=
  match (Schema.openAt Schema.taskVersions (placeOf v cwd p)).1 with
  | .error e => (.error e, v)
  | .ok () =>
    match at? v cwd p with
    | some s => (.ok s, v)
    | none => (.ok {}, save v cwd p {})

end Courier.Store
