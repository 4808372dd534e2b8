/-
# Courier.Main -- the program

`agent` starts the agent, `tasks` is the console of the operators. A call works on a volume; what the
call can look at is read from the disk before, and the databases and directories that it has changed
or made are written after.
-/
import Courier.Agent.Session
import Courier.Console.Run
import Courier.Store.Snapshot
import Courier.Task.Identifier
import Std.Time.DateTime.Timestamp

namespace Courier.Program

open CommandLine (Outcome Word)

/-! ## Reading -/

/-- What a file of the disk holds. -/
def contentOf (b : Bytes) : Content :=
  match Snapshot.decode? b with
  | some s => .database s
  | none => .bytes b

/-- Takes over what stands at a path. -/
def mountOne (v : Volume) (p : Path) : IO Volume := do
  try
    let bytes ← IO.FS.readBinFile p.text
    return v.place [] p (contentOf bytes.toList)
  catch
    | .noFileOrDirectory .. => return v
    | _ => return (v.ensureDirectory [] p).2

/-- Takes over what stands at some paths and above them. -/
def mount (cwd : Location) (v : Volume) (paths : List Path) : IO Volume := do
  let mut v := v
  for p in paths do
    let full := (Path.ofLocation cwd).join p
    for n in List.range full.segments.length do
      if 0 < n then v ← mountOne v ⟨full.segments.take (n + 1)⟩
  return v

/-- The paths that arguments may stand for. -/
def mentioned (arguments : List String) : List Path :=
  arguments.filterMap fun a =>
    match Word.of a with
    | .plain text | .long _ (some text) => some (Path.ofText text)
    | _ => none

/-- The paths that a settings file and the command line of the agent name. -/
def named (v : Volume) (cwd : Location) (arguments : List String) : List Path :=
  match Agent.Line.read v cwd arguments with
  | .error _ => []
  | .ok line =>
    let file := (line.settingsFile.bind fun p => (Settings.load v cwd p).toOption).getD {}
    let dirs := (file.databaseDir <|> line.arguments.databaseDir).toList
    let base := file.storage.bind (·.base)
    dirs ++ dirs.map (·.join (Path.ofText "tasks.db")) ++ dirs.map (·.join (Path.ofText "files")) ++
      base.toList

/-! ## Writing -/

/-- Writes what a call has changed. -/
def save (before after : Volume) : IO Unit := do
  for (l, _) in after.below [] do
    if before.contentAt? l ≠ after.contentAt? l || before.get? l ≠ after.get? l then
      match after.contentAt? l with
      | none => IO.FS.createDirAll (Path.ofLocation l).text
      | some (.database s) =>
        IO.FS.writeBinFile (Path.ofLocation l).text ⟨(Snapshot.encode s).toArray⟩
      | some (.bytes b) => IO.FS.writeBinFile (Path.ofLocation l).text ⟨b.toArray⟩

/-- Tells what a call has to say. -/
def tell (o : Outcome) : IO UInt32 := do
  IO.print o.output
  IO.eprint o.errors
  return UInt32.ofNat o.code

/-! ## Calls -/

/-- The working directory. -/
def workingLocation : IO Location := do
  let text := (← IO.getEnv "PWD").getD "/"
  return (Path.ofText text).names

/-- Unix milliseconds. -/
def now : IO Int := do
  return (← Std.Time.Timestamp.now).toMillisecondsSinceUnixEpoch.val

def runTasks (arguments : List String) : IO UInt32 := do
  let cwd ← workingLocation
  let v ← mount cwd ((Volume.ensureDirectory {} [] (Path.ofLocation cwd)).2) (mentioned arguments)
  let id := Identifier.ofNumber (← IO.rand 0 (twoTo 128 - 1))
  let (o, after) := Console.call id (← now) v cwd arguments
  save v after
  tell o

def runAgent (arguments : List String) : IO UInt32 := do
  let cwd ← workingLocation
  let v ← mount cwd ((Volume.ensureDirectory {} [] (Path.ofLocation cwd)).2) (mentioned arguments)
  let v ← mount cwd v (named v cwd arguments)
  let (o, after) := Agent.call v cwd (← now) arguments
  save v after
  tell o

end Courier.Program

def main (arguments : List String) : IO UInt32 :=
  match arguments with
  | "agent" :: rest => Courier.Program.runAgent rest
  | "tasks" :: rest => Courier.Program.runTasks rest
  | _ => do
    IO.eprint ("agent " ++ Courier.Agent.usage ++ "tasks " ++ Courier.Console.usage)
    return UInt32.ofNat Courier.CommandLine.usageCode
