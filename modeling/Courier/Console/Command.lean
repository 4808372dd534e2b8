/-
# Courier.Console.Command -- what an operator can ask for

The first argument names the task database, the second one the command; the rest belongs to the
command. A word that is the name of a command is one wherever it stands, so a database with such a
name needs a path that shows more than the name.
-/
import Courier.CommandLine.Reader
import Courier.Files.Path
import Courier.Settings.File
import Courier.Task.Status

namespace Courier.Console

open CommandLine (Form Sorted Refusal)

inductive Command where
  | list (status : Option Status) (limit : Nat)
  | show (id : String)
  | events (id : String) (limit : Nat)
  | delete (id : String)
  | enqueue (kind source destination : String) (title : Option String)
deriving DecidableEq, Repr

namespace Command

/-! ## Defaults -/

def defaultListLimit : Nat := 50

def defaultEventLimit : Nat := 100

def defaultKind : String := "http"

/-! ## Reading -/

/-- A value that is checked if it is there. -/
def checked {α : Type} (value : Option String) (read : String → Option α) :
    Except Refusal (Option α) :=
  match value with
  | none => .ok none
  | some text =>
    match read text with
    | some x => .ok (some x)
    | none => .error .usage

/-- A value that has to be there. -/
def needed (value : Option String) : Except Refusal String :=
  match value with
  | some text => .ok text
  | none => .error .usage

/-- A status by its name, in letters of either case. -/
def status? (text : String) : Option Status :=
  Status.ofName? (text.map Char.toLower)

def limit? (text : String) : Option Nat :=
  CommandLine.natural? Settings.max64 text

def readList (arguments : List String) : Except Refusal Command := do
  let form : Form := { switches := [{ name := "status" }, { name := "limit" }] }
  let s ← form.read arguments
  let status ← checked (s.value? "status") status?
  let limit ← checked (s.value? "limit") limit?
  return .list status (limit.getD defaultListLimit)

def readId (arguments : List String) : Except Refusal String := do
  let form : Form := { places := 1 }
  let s ← form.read arguments
  needed s.placed.head?

def readEvents (arguments : List String) : Except Refusal Command := do
  let form : Form := { switches := [{ name := "limit" }], places := 1 }
  let s ← form.read arguments
  let limit ← checked (s.value? "limit") limit?
  return .events (← needed s.placed.head?) (limit.getD defaultEventLimit)

def readEnqueue (arguments : List String) : Except Refusal Command := do
  let form : Form := { switches := [
    { name := "kind" }, { name := "source" }, { name := "dest" }, { name := "title" }] }
  let s ← form.read arguments
  let source ← needed (s.value? "source")
  let destination ← needed (s.value? "dest")
  return .enqueue ((s.value? "kind").getD defaultKind) source destination (s.value? "title")

/-- The commands by their names. -/
def readers : List (String × (List String → Except Refusal Command)) := [
  ("list", readList),
  ("show", fun a => Command.show <$> readId a),
  ("events", readEvents),
  ("delete", fun a => Command.delete <$> readId a),
  ("enqueue", readEnqueue)]

/-- Is help asked for, on everything or on one command? -/
def readHelp (arguments : List String) : Refusal :=
  match arguments with
  | [] => .help
  | [name] => if name = "help" || (readers.lookup name).isSome then .help else .usage
  | _ => .usage

end Command

/-- Reads a command line: the text of the database path, and the command. Arguments before the command
stand for themselves, and there is a place for one. -/
def readLine : List String → List String → Except Refusal (String × Command)
  | _, [] => .error .usage
  | before, a :: rest =>
    match Command.readers.lookup a with
    | some read => do
      let command ← read rest
      match before with
      | [database] => return (database, command)
      | _ => throw .usage
    | none =>
      if a = "help" then .error (Command.readHelp rest)
      else
        match CommandLine.Word.of a with
        | .plain _ => if before.isEmpty then readLine [a] rest else .error .usage
        | .short ('h' :: _) | .long "help" none => .error .help
        | _ => .error .usage

end Courier.Console
