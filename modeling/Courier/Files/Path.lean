/-
# Courier.Files.Path -- paths, as texts

A path is a text that slashes cut into segments. Nothing is simplified when paths are joined: empty
segments, segments of one dot and of two dots stay as they are written. The *names* of a path are the
segments that say something, and its last name and parent are meant in that sense, so a slash or a dot
at the end does not hide them.
-/

namespace Courier

/-- The segments between the slashes of a path; there is always one. -/
structure Path where
  segments : List String
deriving DecidableEq, Repr

namespace Path

def ofText (text : String) : Path :=
  ⟨(text.toList.splitOn '/').map String.ofList⟩

def text (p : Path) : String :=
  String.intercalate "/" p.segments

/-- The path without any name. -/
def nowhere : Path := ⟨[""]⟩

def root : Path := ⟨["", ""]⟩

/-- The path of the names from the root down. -/
def ofLocation (names : List String) : Path :=
  if names.isEmpty then root else ⟨"" :: names⟩

/-- Does the path start at the root? -/
def isAbsolute (p : Path) : Bool :=
  match p.segments with
  | "" :: _ :: _ => true
  | _ => false

/-- A segment that stands for the directory that it is found in. -/
def isIdle (segment : String) : Bool := segment == "" || segment == "."

/-- The segments that say something. -/
def names (p : Path) : List String := p.segments.filter fun s => !isIdle s

/-- The second path as seen from the first one. -/
def join (p q : Path) : Path :=
  if q.isAbsolute then q
  else if p = nowhere then q
  else if p.segments.getLast? = some "" then ⟨p.segments.dropLast ++ q.segments⟩
  else ⟨p.segments ++ q.segments⟩

/-- The last name, unless it leads back to a parent. -/
def lastName? (p : Path) : Option String :=
  match p.names.getLast? with
  | some ".." => none
  | name => name

/-- The path with its last name and all that follows it cut off; none if there is no name. -/
def parent? (p : Path) : Option Path :=
  match p.segments.reverse.dropWhile isIdle with
  | [] => none
  | _ :: before =>
    match before.dropWhile isIdle with
    | [] => some (if p.isAbsolute then root else if p.segments.head? = some "." then ⟨["."]⟩ else nowhere)
    | kept => some ⟨kept.reverse⟩

/-- The path with another last name. -/
def withLastName (p : Path) (name : String) : Path :=
  match p.lastName?, p.parent? with
  | some _, some parent => parent.join (ofText name)
  | _, _ => p.join (ofText name)

end Path

end Courier
