/-
# Courier.Store.Transaction -- statements that take effect together

A deletion is two statements on two tables. They run in one transaction: each sees what the ones before
it have done, and the database has none of it until the commit. A transaction that does not get there
is rolled back, whatever its statements have done by then. That is what the database promises of a
transaction; it is assumed here, and `transact` is its wording. What is the program's is which statements
it runs in one, and what it makes of their answers.

`Store.delete` is a deletion on a database that does not break down. `Store.deleteOn` takes its statements
one by one, on a database that may break down at any of them.
-/
import Courier.Store.Basic

namespace Courier.Store

/-! ## Transactions -/

/-- Changes some rows and says how many, or fails and changes none. -/
abbrev Statement := Store → Except Error (Nat × Store)

/-- Statements one after the other, up to the first that fails: the numbers of rows that they have
changed, and what the transaction sees in the end. -/
def executeAll : List Statement → Store → Except Error (List Nat) × Store
  | [], s => (.ok [], s)
  | statement :: rest, s =>
    match statement s with
    | .error e => (.error e, s)
    | .ok (n, s) =>
      match executeAll rest s with
      | (.error e, s) => (.error e, s)
      | (.ok counts, s) => (.ok (n :: counts), s)

/-- Where the database itself fails: when a transaction begins, at some of its statements, counted from
nought, and when it is committed. -/
structure Breakdown where
  begin : Bool := false
  statement : Nat → Bool := fun _ => false
  commit : Bool := false

/-- A statement on a database that may fail at it. -/
def Statement.onDatabase (statement : Statement) (broken : Bool) : Statement :=
  fun s => if broken then .error .database else statement s

/-- Runs statements in one transaction. What they have done is dropped unless it can be committed. -/
def transact (b : Breakdown) (statements : List Statement) (s : Store) : Except Error (List Nat) × Store :=
  if b.begin then (.error .database, s)
  else
    match executeAll (statements.mapIdx fun i statement => statement.onDatabase (b.statement i)) s with
    | (.error e, _) => (.error e, s)
    | (.ok counts, t) => if b.commit then (.error .database, s) else (.ok counts, t)

/-! ## Deleting -/

def deleteRows (id : String) : Statement := fun s => do
  let rows ← s.rows
  return ((rows.filter fun r => r.id = id).length, { s with rows? := some (rows.filter fun r => r.id ≠ id) })

def deleteMarks (id : String) : Statement := fun s => do
  let marks ← s.marks
  return ((marks.filter fun m => m.taskId = id).length,
    { s with marks? := some (marks.filter fun m => m.taskId ≠ id) })

/-- Removes a task together with its entries. Whether there was one is looked at after the commit. -/
def deleteOn (b : Breakdown) (s : Store) (id : String) : Except Error Unit × Store :=
  match transact b [deleteRows id, deleteMarks id] s with
  | (.error e, s) => (.error e, s)
  | (.ok counts, s) => (if counts.head? = some 0 then .error (.notFound id) else .ok (), s)

end Courier.Store
