/-
# Courier.Schema.Open -- a database made ready for use

A new database gets the tables of the latest version. One that is already there is compared with the
version that it names; if that is not the latest one, the versions after it are applied in turn, each
with its number written behind it, and the result is compared with the latest version. Versions are
looked up by their place in the list.
-/
import Courier.Schema.Basic

namespace Courier.Schema

/-- The version that a database names, counted from the first version of the program. -/
def readVersion (c : Catalogue) : Except Error Nat :=
  if c.version < (base : Int) then .error (.foreignVersion c.version)
  else .ok (c.version - (base : Int)).toNat

/-- A comparison as a step: it never changes anything. -/
def Step.check (f : Catalogue → Except Error Unit) : Step := fun c => (f c, c)

/-- Brings a database from the version before to this one. -/
def Version.migrate (v : Version) : Step :=
  .inTurn (v.migration.toList ++ [setVersion v.number])

/-- Makes a database ready. -/
def prepare (versions : List Version) (isNew : Bool) : Step := fun c =>
  match versions.getLast? with
  | none => (.error .noVersions, c)
  | some latest =>
    if isNew then latest.create c
    else
      match readVersion c with
      | .error e => (.error e, c)
      | .ok place =>
        match versions[place]? with
        | none => (.error (.tooNew place (versions.length - 1)), c)
        | some current =>
          if place = latest.number then Step.check (Version.validate · current) c
          else
            Step.inTurn (
              Step.check (Version.validate · current) ::
              (versions.drop (place + 1)).map Version.migrate ++
              [Step.check (Version.validate · latest)]) c

/-! ## Files -/

/-- What is found at the place of a database file. -/
inductive Place where
  | missing
  | database (c : Catalogue)
  /-- A file that is no database. -/
  | garbage
  | directory
  /-- The directory that should hold the file is missing. -/
  | unreachable
deriving DecidableEq, Repr

/-- Opens the database at a place, and makes it if nothing is there. -/
def openAt (versions : List Version) : Place → Except Error Unit × Place
  | .missing =>
    let (result, c) := prepare versions true {}
    (result, .database c)
  | .database c =>
    let (result, c) := prepare versions false c
    (result, .database c)
  | .garbage => (.error .unreadableVersion, .garbage)
  | .directory => (.error .database, .directory)
  | .unreachable => (.error .database, .unreachable)

end Courier.Schema
