/-
# Courier.Console.Run -- operator commands carried out

Each call opens the task database, which has to exist, carries out one command and says what it found
or did. Tasks that are running belong to the agent and are not deleted. A new task is only written
down; the agent finds it when it next looks through the store.
-/
import Courier.Calendar
import Courier.CommandLine.Outcome
import Courier.Console.Command
import Courier.Store.Opened
import Courier.Task.Transfer

namespace Courier.Console

open CommandLine (Outcome)

/-! ## Answers -/

/-- Why a command fails. -/
inductive Problem where
  | missingDatabase (p : Path)
  | unreadableDatabase (p : Path)
  | store (e : Store.Error)
  | running (id : String)
deriving DecidableEq, Repr

/-- The wording of a problem. The database has its own words for its failures; those here stand for
them. -/
def Problem.message : Problem → String
  | .missingDatabase p => "Task database not found at " ++ Text.quoted p.text
  | .unreadableDatabase p => "Failed to open task database " ++ Text.quoted p.text
  | .store e => e.message?.getD "Database error"
  | .running id => "Task " ++ id ++ " is running, cancel it through the agent first"

/-! ## Texts -/

/-- A text with blanks behind it up to a width, counted in characters. -/
def padded (width : Nat) (s : String) : String :=
  s ++ String.ofList (List.replicate (width - s.length) ' ')

/-- A task in a list. The status takes the room that it needs. -/
def rowText (r : Record) : String :=
  padded 36 r.id ++ "  " ++ r.status.name ++ "  " ++ padded 6 r.kind ++ "  " ++
    padded 19 (Calendar.listed r.createdAt) ++ "  " ++ r.title

def entryText (e : Entry) : String :=
  Calendar.listed e.timestamp ++ "  " ++ padded 15 e.type.name ++ "  " ++
    (e.details.map Json.text).getD ""

/-- All fields of a task. -/
def detailLines (r : Record) : List String :=
  ["id:           " ++ r.id,
    "title:        " ++ r.title,
    "kind:         " ++ r.kind,
    "status:       " ++ r.status.name,
    "created_at:   " ++ Calendar.listed r.createdAt,
    "updated_at:   " ++ Calendar.listed r.updatedAt,
    "completed_at: " ++ (r.completedAt.map Calendar.listed).getD "-"] ++
  (if r.error.isEmpty then [] else ["error:        " ++ r.error]) ++
  match Transfer.decode r.payload with
  | .ok t => ["source:       " ++ t.source, "destination:  " ++ t.destination]
  | .error _ => ["payload:      " ++ toString r.payload.length ++ " opaque bytes"]

/-! ## Commands -/

/-- The look at a task before it is deleted. The deletion itself comes after it, as a store operation of
its own. -/
def checkDeletable (s : Store) (id : String) : Except Problem Unit :=
  match s.get id with
  | .error e => .error (.store e)
  | .ok r => if r.status = .running then .error (.running id) else .ok ()

/-- Carries out a command on a store: the lines of the answer, and the store after it. A new task gets
the given id and time. -/
def Command.run (freshId : String) (now : Int) (s : Store) :
    Command → Except Problem (List String) × Store
  | .list status limit =>
    match s.list status limit with
    | .error e => (.error (.store e), s)
    | .ok [] => (.ok ["No tasks."], s)
    | .ok records => (.ok (records.map rowText), s)
  | .show id =>
    match s.get id with
    | .error e => (.error (.store e), s)
    | .ok r => (.ok (detailLines r), s)
  | .events id limit =>
    match s.get id with
    | .error e => (.error (.store e), s)
    | .ok _ =>
      match s.eventsFor id limit with
      | .error e => (.error (.store e), s)
      | .ok [] => (.ok ["No events recorded for " ++ id ++ "."], s)
      | .ok entries => (.ok (entries.map entryText), s)
  | .delete id =>
    match checkDeletable s id with
    | .error e => (.error e, s)
    | .ok () =>
      match s.delete id with
      | (.error e, s) => (.error (.store e), s)
      | (.ok (), s) => (.ok ["Deleted task " ++ id ++ "."], s)
  | .enqueue kind source destination title =>
    let payload := Transfer.encode ⟨source, destination⟩
    match s.put (Record.new freshId kind payload (title.getD destination) now) with
    | .error e => (.error (.store e), s)
    | .ok s => (.ok ["Enqueued task " ++ freshId ++ "."], s)

/-! ## Calls -/

/-- What is said to a command line that the program does not know. -/
def usage : String :=
  "Usage: <DB_PATH> list [--status <STATUS>] [--limit <LIMIT>]
       <DB_PATH> show <ID>
       <DB_PATH> events <ID> [--limit <LIMIT>]
       <DB_PATH> delete <ID>
       <DB_PATH> enqueue [--kind <KIND>] --source <SOURCE> --dest <DEST> [--title <TITLE>]
"

/-- Carries out one call on a volume. -/
def call (freshId : String) (now : Int) (v : Volume) (cwd : Location) (arguments : List String) :
    Outcome × Volume :=
  match readLine [] arguments with
  | .error r => (CommandLine.refused usage r, v)
  | .ok (database, command) =>
    let p := (Path.ofLocation cwd).join (Path.ofText database)
    if !v.doesExist cwd p then (failed (.missingDatabase p), v)
    else
      match Store.openFile v cwd p with
      | (.error _, v) => (failed (.unreadableDatabase p), v)
      | (.ok s, v) =>
        let (result, s) := command.run freshId now s
        let v := Store.save v cwd p s
        match result with
        | .error e => (failed e, v)
        | .ok lines => ({ code := 0, output := String.join (lines.map (· ++ "\n")) }, v)
where
  failed (e : Problem) : Outcome := .failure e.message

end Courier.Console
