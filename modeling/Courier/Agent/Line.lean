/-
# Courier.Agent.Line -- the command line of the agent

The agent takes options only. Paths of things that exist are put into their shortest form at once;
others are completed with the working directory. A path that cannot be followed at all is refused like
a number that is none.
-/
import Courier.CommandLine.Reader
import Courier.Settings.Resolved

namespace Courier.Agent

open CommandLine (Form Sorted Refusal)

/-- What the command line says. -/
structure Line where
  settingsFile : Option Path := none
  arguments : Settings.Arguments := {}
deriving DecidableEq, Repr

/-- The options of the agent. -/
def form : Form where
  switches := [{ name := "config" }, { name := "db-dir" }, { name := "storage-dir" },
    { name := "workers" }, { name := "max-retries" }, { name := "check-interval-secs" },
    { name := "admin-id", isRepeatable := true }, { name := "probe-url" }, { name := "webhook-url" }]

/-- The path of an argument. -/
def knownPath (v : Volume) (cwd : Location) (text : String) : Option Path :=
  let p := Path.ofText text
  match v.stat cwd p with
  | .ok (l, _) => some (Path.ofLocation l)
  | .error .notFound => some ((Path.ofLocation cwd).join p)
  | .error _ => none

/-- A whole number of 32 bits; zero may have a sign. -/
def small (text : String) : Option Nat := do
  let z ← CommandLine.integer? text
  if 0 ≤ z && z.toNat ≤ Settings.max32 then some z.toNat else none

def large (text : String) : Option Nat :=
  CommandLine.natural? Settings.max64 text

/-- A value that is checked if it is there. -/
def checked {α : Type} (s : Sorted) (name : String) (read : String → Option α) :
    Except Refusal (Option α) :=
  match s.value? name with
  | none => .ok none
  | some text =>
    match read text with
    | some x => .ok (some x)
    | none => .error .usage

/-- Reads the command line. -/
def Line.read (v : Volume) (cwd : Location) (arguments : List String) : Except Refusal Line := do
  let s ← form.read arguments
  let usual : Settings.Arguments := {}
  let settingsFile ← checked s "config" (knownPath v cwd)
  let databaseDir ← checked s "db-dir" (knownPath v cwd)
  let storageDir ← checked s "storage-dir" (knownPath v cwd)
  let workers ← checked s "workers" large
  let maxRetries ← checked s "max-retries" small
  let checkIntervalSecs ← checked s "check-interval-secs" large
  let some recipients := (s.values "admin-id").mapM CommandLine.integer? | throw .usage
  return {
    settingsFile
    arguments := {
      databaseDir
      storageDir
      workers := workers.getD usual.workers
      maxRetries := maxRetries.getD usual.maxRetries
      checkIntervalSecs := checkIntervalSecs.getD usual.checkIntervalSecs
      recipients
      probeUrl := s.value? "probe-url"
      webhookUrl := s.value? "webhook-url" } }

end Courier.Agent
