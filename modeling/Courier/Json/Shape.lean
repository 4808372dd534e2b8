/-
# Courier.Json.Shape -- reading JSON into records

A record is read either from an object, its fields in any order and unknown ones passed over, or from
a list of its fields in order. While it is being read it is a partial record `σ` whose fields may be
unset; a `Field` says how one of them is read and whether it is set, and a `Shape` says how a whole
record is made of them. Flaws are met in the order of the text: a repeated key before its value, an
unset field only when the object has closed.
-/
import Courier.Json.Reader

namespace Courier.Json

/-! ## Single values -/

/-- The flaw of a value that is not of the expected kind; what the value is decides its wording, so
scalars are read to their end first. -/
def mismatch (expected : String) (s : Bytes) : Flaw :=
  let after {α : Type} (r : Except Flaw α) (found : α → Found) : Flaw :=
    match r with
    | .ok x => .wrongType (found x) expected
    | .error e => e
  match s with
  | [] => .expectedValue
  | b :: rest =>
    match ascii b with
    | 'n' => after (literal ['u', 'l', 'l'] rest) fun _ => .null
    | 't' => after (literal ['r', 'u', 'e'] rest) fun _ => .bool true
    | 'f' => after (literal ['a', 'l', 's', 'e'] rest) fun _ => .bool false
    | '-' => after (number true rest) fun (n, _) => n.found
    | '"' => after (stringBody rest) fun (t, _) => .str t
    | '[' => .wrongType .sequence expected
    | '\x7b' => .wrongType .map expected
    | _ => if isDigit b then after (number false s) fun (n, _) => n.found else .expectedValue

/-- A string, where `expected` is what a message calls it. -/
def stringAs (expected : String) : Reader String := fun s =>
  match skipBlanks s with
  | [] => .error .endInValue
  | b :: rest =>
    if ascii b = '"' then stringBody rest else .error (mismatch expected (b :: rest))

def string : Reader String := stringAs "a string"

/-- An integer in an inclusive range, where `expected` is what a message calls the range. -/
def integerIn (lo hi : Int) (expected : String) : Reader Int := fun s =>
  match skipBlanks s with
  | [] => .error .endInValue
  | b :: rest =>
    if ascii b = '-' ∨ isDigit b then do
      let (n, s) ← if ascii b = '-' then number true rest else number false (b :: rest)
      match n with
      | .int z =>
        if lo ≤ z ∧ z ≤ hi then .ok (z, s) else .error (.wrongValue (.int z) expected)
      | .float bits => .error (.wrongType (.float bits) expected)
    else .error (mismatch expected (b :: rest))

def int64 : Reader Int := integerIn (-(twoTo 63 : Int)) (twoTo 63 - 1 : Nat) "i64"

def byte : Reader UInt8 := fun s =>
  (integerIn 0 255 "u8" s).map fun (z, s) => (UInt8.ofNat z.toNat, s)

/-- A list of bytes. -/
def bytes : Reader Bytes := fun s =>
  match skipBlanks s with
  | [] => .error .endInValue
  | b :: rest =>
    if ascii b = '[' then items byte rest else .error (mismatch "a sequence" (b :: rest))

/-- Nothing if the value is `null`. -/
def optional {α : Type} (r : Reader α) : Reader (Option α) := fun s =>
  match skipBlanks s with
  | b :: rest =>
    if ascii b = 'n' then (literal ['u', 'l', 'l'] rest).map fun (_, s) => (none, s)
    else (r (b :: rest)).map fun (x, s) => (some x, s)
  | [] => (r []).map fun (x, s) => (some x, s)

/-- The literal `null`. -/
def nothing : Reader Unit := fun s =>
  match skipBlanks s with
  | [] => .error .endInValue
  | b :: rest =>
    if ascii b = 'n' then literal ['u', 'l', 'l'] rest else .error (mismatch "unit" (b :: rest))

/-- One of several names, given as a string or as the only key of an object whose value is null. -/
def oneName {α : Type} (named? : String → Option α) (known : List String) : Reader α := fun s =>
  let look (name : String) : Except Flaw α :=
    match named? name with
    | some x => .ok x
    | none => .error (.unknownVariant name known)
  match skipBlanks s with
  | [] => .error .endInValue
  | b :: rest =>
    if ascii b = '"' then do
      let (name, s) ← stringBody rest
      let x ← look name
      .ok (x, s)
    else if ascii b = '\x7b' then do
      let (name, s) ← stringAs "variant identifier" rest
      let x ← look name
      let ((), s) ← colon s
      let ((), s) ← nothing s
      match skipBlanks s with
      | [] => .error .endInObject
      | b :: rest => if ascii b = '\x7d' then .ok (x, rest) else .error .expectedValue
    else .error .expectedValue

/-! ## Records -/

/-- One field of a record that is being read. -/
structure Field (σ : Type) where
  name : String
  isSet : σ → Bool
  read : σ → Reader σ

/-- A record: its fields in declared order, and how it is finished once no more fields come. -/
structure Shape (σ α : Type) where
  name : String
  start : σ
  fields : List (Field σ)
  finish : σ → Except Flaw α

variable {σ α : Type}

/-- What a message calls the record. -/
def Shape.title (shape : Shape σ α) : String :=
  "struct " ++ shape.name

/-- Fields in any order up to the closing brace, which is left where it is. -/
def Shape.fromMembers (shape : Shape σ α) : Nat → Bool → σ → Reader σ
  | 0, _, _, _ => .error .endInObject
  | fuel + 1, first, part, s => do
    let (key, s) ← nextKey first s
    match key with
    | none => .ok (part, s)
    | some k =>
      match shape.fields.find? fun f => f.name == k with
      | some field =>
        if field.isSet part then .error (.duplicateField k)
        else
          let ((), s) ← colon s
          let (part, s) ← field.read part s
          shape.fromMembers fuel false part s
      | none =>
        let ((), s) ← colon s
        let ((), s) ← skipValue s
        shape.fromMembers fuel false part s

/-- The fields in declared order; `done` of them have been read. -/
def Shape.fromItems (shape : Shape σ α) : List (Field σ) → Nat → σ → Reader σ
  | [], _, part, s => .ok (part, s)
  | field :: rest, done, part, s => do
    let (more, s) ← nextItem (done == 0) s
    if more then
      let (part, s) ← field.read part s
      shape.fromItems rest (done + 1) part s
    else
      .error (.wrongLength done
        (shape.title ++ " with " ++ toString shape.fields.length ++ " elements"))

/-- A record, as an object or as a list. -/
def Shape.reader (shape : Shape σ α) : Reader α := fun s =>
  match skipBlanks s with
  | [] => .error .endInValue
  | b :: rest =>
    if ascii b = '[' then do
      let (part, s) ← shape.fromItems shape.fields 0 shape.start rest
      let ((), s) ← endList s
      let x ← shape.finish part
      .ok (x, s)
    else if ascii b = '\x7b' then do
      let (part, s) ← shape.fromMembers (rest.length + 1) true shape.start rest
      let x ← shape.finish part
      let ((), s) ← endObject s
      .ok (x, s)
    else .error (mismatch shape.title (b :: rest))

/-- The value of a field that must have been set. -/
def required {β : Type} (name : String) (x : Option β) : Except Flaw β :=
  match x with
  | some v => .ok v
  | none => .error (.missingField name)

end Courier.Json
