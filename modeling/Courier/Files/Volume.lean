/-
# Courier.Files.Volume -- names and contents on a disk

A volume is a set of names, each of which stands for a directory or for a file, and the contents of
the files. A name does not hold a content itself but the number of one, as a directory entry does:
renaming a file moves the number, and whoever has the file open keeps working on the content that the
number stands for.

A *location* is the list of names from the root down; the root itself always is a directory. Paths are
looked up step by step, so that a missing name, a file in the place of a directory and a name that is
too long are found in the order in which they are met.

What is left out: there are no symbolic links, no permissions and no quotas. So an operation on names
fails for what the names are and for nothing else. A disk that is full or broken is noticed by those who
write: `shortWrites` says what it makes of the coming writes.
-/
import Courier.Files.Path
import Courier.Store.Basic
import Courier.Task.Failure

namespace Courier

/-! ## Names and contents -/

/-- What a file holds. -/
inductive Content where
  | bytes (b : Bytes)
  /-- The tables of a task database. -/
  | database (s : Store)
deriving DecidableEq, Repr

/-- What a name stands for. -/
inductive Node where
  | directory
  | file (inode : Nat)
deriving DecidableEq, Repr

/-- The names from the root down. -/
abbrev Location := List String

/-- Why a file operation fails. -/
inductive Fault where
  | notFound
  | notDirectory
  | isDirectory
  | exists
  | nameTooLong
  /-- The path ends in dots. -/
  | busy
  /-- The path holds a character that no path can hold. -/
  | invalid
  /-- The disk does not take what is written, because it is full, say. -/
  | device (cause : FailureKind.SystemCause) (text : String)
deriving DecidableEq, Repr

/-- A write that the disk does not take, or takes in part. -/
structure ShortWrite where
  /-- The number of bytes that it takes. -/
  taken : Nat
  fault : Fault
deriving DecidableEq, Repr

structure Volume where
  nodes : List (Location × Node) := []
  /-- Contents by their numbers. -/
  contents : List (Nat × Content) := []
  /-- What the disk makes of the coming writes; those behind them are taken. -/
  shortWrites : List (Option ShortWrite) := []
deriving DecidableEq, Repr

namespace Fault

def cause : Fault → FailureKind.SystemCause
  | .notFound => .notFound
  | .device cause _ => cause
  | _ => .other

def text : Fault → String
  | .notFound => "no such file or directory"
  | .notDirectory => "not a directory"
  | .isDirectory => "is a directory"
  | .exists => "file exists"
  | .nameTooLong => "file name too long"
  | .busy => "resource busy"
  | .invalid => "invalid path"
  | .device _ text => text

/-- The failure of a transfer that meets the fault. -/
def failure (f : Fault) : Failure := ⟨FailureKind.ofSystem f.cause, f.text⟩

end Fault

namespace Volume

def get? (v : Volume) (l : Location) : Option Node :=
  if l.isEmpty then some .directory else v.nodes.lookup l

def set (v : Volume) (l : Location) (n : Node) : Volume :=
  { v with nodes := (l, n) :: v.nodes.filter fun p => p.1 ≠ l }

def erase (v : Volume) (l : Location) : Volume :=
  { v with nodes := v.nodes.filter fun p => p.1 ≠ l }

def content (v : Volume) (inode : Nat) : Content :=
  (v.contents.lookup inode).getD (.bytes [])

def setContent (v : Volume) (inode : Nat) (c : Content) : Volume :=
  { v with contents := (inode, c) :: v.contents.filter fun p => p.1 ≠ inode }

/-- A number that no content has. -/
def freshInode (v : Volume) : Nat :=
  v.contents.foldl (fun n p => max n (p.1 + 1)) 0

/-- The content of the file at a location. -/
def contentAt? (v : Volume) (l : Location) : Option Content :=
  match v.get? l with
  | some (.file inode) => some (v.content inode)
  | _ => none

/-- The order of listings: a directory before what it holds, names by their characters. -/
def isListedBefore : Location → Location → Bool
  | [], _ => true
  | _ :: _, [] => false
  | a :: as, b :: bs => if a = b then isListedBefore as bs else decide (a < b)

/-- Every name below a location, in the order of listings. -/
def below (v : Volume) (l : Location) : List (Location × Node) :=
  ((v.nodes.filter fun p => l.isPrefixOf p.1 && p.1 ≠ l).map
    fun p => (p.1.drop l.length, p.2)).mergeSort fun a b => isListedBefore a.1 b.1

/-! ## Looking up paths -/

/-- Names have at most this many bytes. -/
def maxNameBytes : Nat := 255

/-- Paths have at most this many bytes. -/
def maxPathBytes : Nat := 4095

/-- How a path ends. -/
inductive Ending where
  /-- With a name, and perhaps slashes behind it. -/
  | name (name : String) (slash : Bool)
  /-- With dots, or without any name. -/
  | dots
deriving DecidableEq, Repr

/-- What stands at the end of a path, and the segments before it. -/
def ending (p : Path) : List String × Ending :=
  match p.segments.reverse.dropWhile (· == "") with
  | [] => ([], .dots)
  | last :: before =>
    if last = "." ∨ last = ".." then ((last :: before).reverse, .dots)
    else (before.reverse, .name last (p.segments.getLast? == some ""))

/-- Looks up a name in a directory. -/
def find (v : Volume) (dir : Location) (name : String) : Except Fault Node :=
  match v.get? (dir ++ [name]) with
  | some n => .ok n
  | none => .error (if maxNameBytes < name.utf8ByteSize then .nameTooLong else .notFound)

/-- Follows segments from a directory; each has to lead to a directory again. -/
def descend (v : Volume) : Location → List String → Except Fault Location
  | dir, [] => .ok dir
  | dir, s :: rest =>
    if Path.isIdle s then descend v dir rest
    else if s = ".." then descend v dir.dropLast rest
    else
      match v.find dir s with
      | .ok .directory => descend v (dir ++ [s]) rest
      | .ok (.file _) => .error .notDirectory
      | .error e => .error e

/-- The directory that a path leads to, and how it ends there. -/
def locate (v : Volume) (cwd : Location) (p : Path) : Except Fault (Location × Ending) :=
  if p.text.toList.contains (Char.ofNat 0) then .error .invalid
  else if p = Path.nowhere then .error .notFound
  else if maxPathBytes < p.text.utf8ByteSize then .error .nameTooLong
  else do
    let (before, last) := ending p
    let dir ← v.descend (if p.isAbsolute then [] else cwd) before
    return (dir, last)

/-- What a path stands for, and where it is. -/
def stat (v : Volume) (cwd : Location) (p : Path) : Except Fault (Location × Node) := do
  let (dir, last) ← v.locate cwd p
  match last with
  | .dots => return (dir, .directory)
  | .name name slash =>
    match ← v.find dir name with
    | .directory => return (dir ++ [name], .directory)
    | .file inode => if slash then throw .notDirectory else return (dir ++ [name], .file inode)

def doesExist (v : Volume) (cwd : Location) (p : Path) : Bool :=
  (v.stat cwd p).toOption.isSome

def isDirectory (v : Volume) (cwd : Location) (p : Path) : Bool :=
  match v.stat cwd p with
  | .ok (_, .directory) => true
  | _ => false

/-- The content of a file. -/
def read (v : Volume) (cwd : Location) (p : Path) : Except Fault Content := do
  match ← v.stat cwd p with
  | (_, .directory) => throw .isDirectory
  | (_, .file inode) => return v.content inode

/-! ## Changes -/

/-- The location of a name that does not exist yet. -/
def vacancy (v : Volume) (dir : Location) (name : String) : Except Fault Location :=
  match v.find dir name with
  | .ok _ => .error .exists
  | .error .notFound => .ok (dir ++ [name])
  | .error e => .error e

def makeDirectory (v : Volume) (cwd : Location) (p : Path) : Except Fault Volume := do
  let (dir, last) ← v.locate cwd p
  match last with
  | .dots => throw .exists
  | .name name _ =>
    let l ← v.vacancy dir name
    return v.set l .directory

/-- Makes a directory and those above it that are missing. Directories that were made before a fault
stay. -/
def makeDirectories (v : Volume) (cwd : Location) : Nat → Path → Except Fault Unit × Volume
  | 0, _ => (.error .notFound, v)
  | fuel + 1, p =>
    if p = Path.nowhere then (.ok (), v)
    else
      match v.makeDirectory cwd p with
      | .ok v => (.ok (), v)
      | .error .notFound =>
        match p.parent? with
        | none => (.error .busy, v)
        | some parent =>
          match v.makeDirectories cwd fuel parent with
          | (.error e, v) => (.error e, v)
          | (.ok (), v) =>
            match v.makeDirectory cwd p with
            | .ok v => (.ok (), v)
            | .error e => (if v.isDirectory cwd p then .ok () else .error e, v)
      | .error e => (if v.isDirectory cwd p then .ok () else .error e, v)

/-- Makes a directory and those above it; no path has more parents than segments. -/
def ensureDirectory (v : Volume) (cwd : Location) (p : Path) : Except Fault Unit × Volume :=
  v.makeDirectories cwd (p.segments.length + 1) p

/-- Opens a file for writing: it is made if it is missing, and emptied if it is there. -/
def create (v : Volume) (cwd : Location) (p : Path) : Except Fault (Nat × Volume) := do
  let (dir, last) ← v.locate cwd p
  match last with
  | .dots => throw .isDirectory
  | .name name slash =>
    if slash then throw .isDirectory
    else
      match v.find dir name with
      | .ok .directory => throw .isDirectory
      | .ok (.file inode) => return (inode, v.setContent inode (.bytes []))
      | .error .notFound =>
        let inode := v.freshInode
        return (inode, (v.set (dir ++ [name]) (.file inode)).setContent inode (.bytes []))
      | .error e => throw e

/-- Puts a content under a path, and makes the directories above it. Where that cannot be, nothing is
put. -/
def place (v : Volume) (cwd : Location) (p : Path) (c : Content) : Volume :=
  let v := ((p.parent?.map fun parent => (v.ensureDirectory cwd parent).2)).getD v
  match v.create cwd p with
  | .ok (inode, v) => v.setContent inode c
  | .error _ => v

/-- Bytes written into a content from an offset on; a gap before them is filled with zeros. -/
def overwritten (old : Bytes) (offset : Nat) (chunk : Bytes) : Bytes :=
  old.take offset ++ List.replicate (offset - old.length) 0 ++ chunk ++
    old.drop (offset + chunk.length)

/-- Puts bytes into the content of a file. -/
def overwrite (v : Volume) (inode offset : Nat) (chunk : Bytes) : Volume :=
  let old :=
    match v.content inode with
    | .bytes b => b
    | .database _ => []
  v.setContent inode (.bytes (overwritten old offset chunk))

/-- What the disk makes of the next write, if it does not take it. -/
def nextShort? (v : Volume) : Option ShortWrite := v.shortWrites.head?.join

/-- The disk has dealt with a write. -/
def answered (v : Volume) : Volume := { v with shortWrites := v.shortWrites.tail }

/-- Writes bytes into an open file. Where the disk does not take all of them, those that it has taken
stay. -/
def write (v : Volume) (inode offset : Nat) (chunk : Bytes) : Except Fault Unit × Volume :=
  match v.nextShort? with
  | none => (.ok (), v.answered.overwrite inode offset chunk)
  | some short => (.error short.fault, v.answered.overwrite inode offset (chunk.take short.taken))

/-- Waits for the disk to take what was written last. -/
def flush (v : Volume) : Except Fault Unit × Volume :=
  match v.nextShort? with
  | none => (.ok (), v.answered)
  | some short => (.error short.fault, v.answered)

/-- Gives a file another name; a file that had that name before is gone. -/
def rename (v : Volume) (cwd : Location) (old new : Path) : Except Fault Volume := do
  let (dir, last) ← v.locate cwd old
  let (newDir, newLast) ← v.locate cwd new
  match last, newLast with
  | .name name _, .name newName slash =>
    match ← v.find dir name with
    | .directory => throw .isDirectory
    | .file inode =>
      match v.find newDir newName with
      | .error .notFound | .ok (.file _) =>
        if slash then throw .notDirectory
        else return (v.erase (dir ++ [name])).set (newDir ++ [newName]) (.file inode)
      | .ok .directory => throw (if slash then .notDirectory else .isDirectory)
      | .error e => throw e
  | _, _ => throw .busy

/-- Removes a file. -/
def remove (v : Volume) (cwd : Location) (p : Path) : Except Fault Volume := do
  let (dir, last) ← v.locate cwd p
  match last with
  | .dots => throw .isDirectory
  | .name name slash =>
    match ← v.find dir name with
    | .directory => throw .isDirectory
    | .file _ => if slash then throw .notDirectory else return v.erase (dir ++ [name])

/-- Removes a file if it is there. -/
def removeIfPresent (v : Volume) (cwd : Location) (p : Path) : Except Fault Volume :=
  match v.remove cwd p with
  | .error .notFound => .ok v
  | result => result

end Volume

end Courier
