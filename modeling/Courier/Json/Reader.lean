/-
# Courier.Json.Reader -- reading JSON from bytes, the first flaw first

Readers take the bytes that are left and return a result with the bytes after it, or the first flaw
met from left to right. The lexical level is here (blanks, literals, numbers, strings) together with
the two readers that need no expectation: `skipValue`, which passes over a value of any depth, and
`value`, which builds one and allows 127 levels of nesting. Readers for expected shapes are built
on these in `Courier.Json.Shape`.

Loops carry a bound on the number of rounds. Every round takes at least one byte, so the number of
bytes left is always enough.
-/
import Courier.Json.Value
import Courier.Text.Quoted
import Courier.Text.Utf8

namespace Courier.Json

/-! ## Flaws -/

/-- What a value turned out to be, where something else was expected. -/
inductive Found where
  | null
  | bool (b : Bool)
  | int (z : Int)
  | float (bits : UInt64)
  | str (s : String)
  | sequence
  | map
deriving DecidableEq, Repr

/-- What is wrong with a text. -/
inductive Flaw where
  | endInValue
  | endInObject
  | endInList
  | endInString
  | expectedValue
  | expectedIdent
  | expectedColon
  | expectedCommaOrBrace
  | expectedCommaOrBracket
  | keyNotString
  | trailingComma
  | trailingCharacters
  | invalidNumber
  | numberOutOfRange
  | invalidEscape
  | controlCharacter
  | loneSurrogate
  | cutSurrogatePair
  | invalidCodePoint
  | tooDeep
  | missingField (name : String)
  | duplicateField (name : String)
  | wrongType (found : Found) (expected : String)
  | wrongValue (found : Found) (expected : String)
  | wrongLength (count : Nat) (expected : String)
  | unknownVariant (name : String) (known : List String)
deriving DecidableEq, Repr

/-- How a message names what was found. -/
def Found.message : Found → String
  | .null => "null"
  | .bool true => "boolean `true`"
  | .bool false => "boolean `false`"
  | .int z => "integer `" ++ String.ofList (integerChars z) ++ "`"
  | .float bits => "floating point `" ++ String.ofList (floatChars bits) ++ "`"
  | .str s => "string " ++ Text.quoted s
  | .sequence => "sequence"
  | .map => "map"

/-- A list of names for a message; a single one stands alone. -/
def oneOf : List String → String
  | [] => "there are no variants"
  | [a] => "expected `" ++ a ++ "`"
  | [a, b] => "expected `" ++ a ++ "` or `" ++ b ++ "`"
  | names => "expected one of " ++ ", ".intercalate (names.map fun n => "`" ++ n ++ "`")

/-- The wording of a flaw. -/
def Flaw.message : Flaw → String
  | .endInValue => "EOF while parsing a value"
  | .endInObject => "EOF while parsing an object"
  | .endInList => "EOF while parsing a list"
  | .endInString => "EOF while parsing a string"
  | .expectedValue => "expected value"
  | .expectedIdent => "expected ident"
  | .expectedColon => "expected `:`"
  | .expectedCommaOrBrace => "expected `,` or `\x7d`"
  | .expectedCommaOrBracket => "expected `,` or `]`"
  | .keyNotString => "key must be a string"
  | .trailingComma => "trailing comma"
  | .trailingCharacters => "trailing characters"
  | .invalidNumber => "invalid number"
  | .numberOutOfRange => "number out of range"
  | .invalidEscape => "invalid escape"
  | .controlCharacter => "control character (\\u0000-\\u001F) found while parsing a string"
  | .loneSurrogate => "lone leading surrogate in hex escape"
  | .cutSurrogatePair => "unexpected end of hex escape"
  | .invalidCodePoint => "invalid unicode code point"
  | .tooDeep => "recursion limit exceeded"
  | .missingField name => "missing field `" ++ name ++ "`"
  | .duplicateField name => "duplicate field `" ++ name ++ "`"
  | .wrongType found expected => "invalid type: " ++ found.message ++ ", expected " ++ expected
  | .wrongValue found expected => "invalid value: " ++ found.message ++ ", expected " ++ expected
  | .wrongLength count expected =>
    "invalid length " ++ toString count ++ ", expected " ++ expected
  | .unknownVariant name known => "unknown variant `" ++ name ++ "`, " ++ oneOf known

/-- A reader: the result and the bytes left, or the first flaw. -/
abbrev Reader (α : Type) := Bytes → Except Flaw (α × Bytes)

/-! ## Lexical level -/

/-- A byte seen as a character; bytes past the ASCII range match no character of the grammar. -/
def ascii (b : UInt8) : Char := Char.ofNat b.toNat

/-- Space, line feed, tab and carriage return. -/
def isBlank (b : UInt8) : Bool :=
  b == 0x20 || b == 0x0a || b == 0x09 || b == 0x0d

def isDigit (b : UInt8) : Bool :=
  0x30 ≤ b && b ≤ 0x39

def digitValue (b : UInt8) : Nat :=
  b.toNat - 0x30

/-- The bytes after leading blanks. -/
def skipBlanks (s : Bytes) : Bytes :=
  s.dropWhile isBlank

/-- The rest of a literal whose first letter has been taken. -/
def literal : List Char → Reader Unit
  | [], s => .ok ((), s)
  | _ :: _, [] => .error .endInValue
  | c :: cs, b :: s => if ascii b = c then literal cs s else .error .expectedIdent

/-- The value of a hexadecimal digit. -/
def hexValue? (b : UInt8) : Option Nat :=
  let n := b.toNat
  if 0x30 ≤ n ∧ n ≤ 0x39 then some (n - 0x30)
  else if 0x41 ≤ n ∧ n ≤ 0x46 then some (n - 0x37)
  else if 0x61 ≤ n ∧ n ≤ 0x66 then some (n - 0x57)
  else none

/-- Four hexadecimal digits. -/
def hexQuad : Reader Nat
  | a :: b :: c :: d :: s =>
    match hexValue? a, hexValue? b, hexValue? c, hexValue? d with
    | some w, some x, some y, some z => .ok (((w * 16 + x) * 16 + y) * 16 + z, s)
    | _, _, _, _ => .error .invalidEscape
  | _ => .error .endInString

/-- The character of an escape whose letter has been taken; a high surrogate must be followed by a
low one, written as an escape too. -/
def unicodeEscape : Reader Char := fun s => do
  let (n, s) ← hexQuad s
  if 0xDC00 ≤ n ∧ n ≤ 0xDFFF then .error .loneSurrogate
  else if n < 0xD800 ∨ 0xDBFF < n then .ok (Char.ofNat n, s)
  else
    match s with
    | [] => .error .endInString
    | b :: s =>
      if ascii b ≠ '\\' then .error .cutSurrogatePair
      else
        match s with
        | [] => .error .endInString
        | b :: s =>
          if ascii b ≠ 'u' then .error .cutSurrogatePair
          else do
            let (m, s) ← hexQuad s
            if m < 0xDC00 ∨ 0xDFFF < m then .error .loneSurrogate
            else .ok (Char.ofNat ((n - 0xD800) * 1024 + (m - 0xDC00) + 0x10000), s)

/-- The character of an escape, the backslash taken. -/
def escape : Reader Char
  | [] => .error .endInString
  | b :: s =>
    match ascii b with
    | '"' => .ok ('"', s)
    | '\\' => .ok ('\\', s)
    | '/' => .ok ('/', s)
    | 'b' => .ok ('\x08', s)
    | 'f' => .ok ('\x0c', s)
    | 'n' => .ok ('\n', s)
    | 'r' => .ok ('\r', s)
    | 't' => .ok ('\t', s)
    | 'u' => unicodeEscape s
    | _ => .error .invalidEscape

/-- The bytes of a string up to its closing quote, escapes replaced; `done` is in reverse. -/
def stringBytes : Nat → Bytes → Reader Bytes
  | 0, _, _ => .error .endInString
  | _ + 1, _, [] => .error .endInString
  | fuel + 1, done, b :: s =>
    if ascii b = '"' then .ok (done.reverse, s)
    else if ascii b = '\\' then do
      let (c, s) ← escape s
      stringBytes fuel ((Utf8.encodeChar c).reverse ++ done) s
    else if b < 0x20 then .error .controlCharacter
    else stringBytes fuel (b :: done) s

/-- A string whose opening quote has been taken. Ill-formed text inside it is noticed at its end. -/
def stringBody : Reader String := fun s => do
  let (bytes, s) ← stringBytes (s.length + 1) [] s
  match Utf8.decode? bytes with
  | some text => .ok (text, s)
  | none => .error .invalidCodePoint

/-- Passes over the rest of a string. Nothing but the form of its escapes is looked at. -/
def skipString : Nat → Reader Unit
  | 0, _ => .error .endInString
  | _ + 1, [] => .error .endInString
  | fuel + 1, b :: s =>
    if ascii b = '"' then .ok ((), s)
    else if ascii b = '\\' then
      match s with
      | [] => .error .endInString
      | e :: s =>
        if ascii e = 'u' then do
          let (_, s) ← hexQuad s
          skipString fuel s
        else if ['"', '\\', '/', 'b', 'f', 'n', 'r', 't'].contains (ascii e) then skipString fuel s
        else .error .invalidEscape
    else if b < 0x20 then .error .controlCharacter
    else skipString fuel s

/-! ## Numbers -/

/-- A number as it was written: an integer of at most sixty-four bits, or a fraction. -/
inductive Number where
  | int (z : Int)
  | float (bits : UInt64)
deriving DecidableEq, Repr

def Number.found : Number → Found
  | .int z => .int z
  | .float bits => .float bits

def Number.toJson : Number → Json
  | .int z => .int z
  | .float bits => .float bits

/-- The greatest integer that is kept digit by digit. -/
def maxInteger : Nat := twoTo 64 - 1

/-- `significand · 10 ^ power` as a fraction, by one multiplication or division for every 308 powers
of ten, the last one first. -/
def scale (negative : Bool) (significand : Nat) (power : Int) : Except Flaw UInt64 :=
  let rec go : Nat → Float → Int → Except Flaw Float
    | 0, f, _ => .ok f
    | fuel + 1, f, power =>
      if power.natAbs ≤ 308 then
        if 0 ≤ power then
          let g := f * Float.ofScientific 1 false power.toNat
          if g.isInf then .error .numberOutOfRange else .ok g
        else .ok (f / Float.ofScientific 1 false power.natAbs)
      else if f == 0.0 then .ok f
      else if 0 ≤ power then .error .numberOutOfRange
      else go fuel (f / Float.ofScientific 1 false 308) (power + 308)
  (go (power.natAbs / 308 + 2) (UInt64.ofNat significand).toFloat power).map fun f =>
    (if negative then -f else f).toBits

/-- Takes digits into a significand while it stays in range; then the digits are only counted. -/
def takeDigits (m : Nat) : Bytes → Nat × Nat × Bytes
  | [] => (m, 0, [])
  | b :: s =>
    if isDigit b then
      if m * 10 + digitValue b ≤ maxInteger then
        let (m', n, s') := takeDigits (m * 10 + digitValue b) s
        (m', n, s')
      else
        let n := (s.takeWhile isDigit).length + 1
        (m, n, s.dropWhile isDigit)
    else (m, 0, b :: s)

/-- Digits of an exponent past the range of thirty-two bits: too large is an error, too small is
zero. -/
def exponentLimit : Nat := twoTo 31 - 1

/-- The exponent after its letter, applied to what has been read so far. -/
def exponentPart (negative : Bool) (m : Nat) (power : Int) : Reader Number := fun s =>
  let (down, s) :=
    match s with
    | b :: rest => if ascii b = '-' then (true, rest) else if ascii b = '+' then (false, rest) else (false, s)
    | [] => (false, s)
  match s with
  | [] => .error .endInValue
  | b :: _ =>
    if !isDigit b then .error .invalidNumber
    else
      let digits := s.takeWhile isDigit
      let rest := s.dropWhile isDigit
      let e := digits.foldl (fun acc d => acc * 10 + digitValue d) 0
      if exponentLimit < e then
        if m ≠ 0 ∧ !down then .error .numberOutOfRange
        else .ok (.float (if negative then (-0.0 : Float) else 0.0).toBits, rest)
      else do
        let bits ← scale negative m (if down then power - e else power + e)
        .ok (.float bits, rest)

/-- The digits after a point. Digits that no longer fit are dropped. -/
def fractionPart (negative : Bool) (m : Nat) (power : Int) : Reader Number := fun s =>
  let fits (m : Nat) (b : UInt8) : Bool := m * 10 + digitValue b ≤ maxInteger
  let rec go (m : Nat) (n : Nat) : Bytes → Nat × Nat × Bytes
    | [] => (m, n, [])
    | b :: s =>
      if isDigit b then
        if fits m b then go (m * 10 + digitValue b) (n + 1) s else (m, n, s.dropWhile isDigit)
      else (m, n, b :: s)
  match s with
  | [] => .error .endInValue
  | b :: _ =>
    if !isDigit b then .error .invalidNumber
    else
      let (m, n, rest) := go m 0 s
      match rest with
      | b :: after =>
        if ascii b = 'e' ∨ ascii b = 'E' then exponentPart negative m (power - n) after
        else do
          let bits ← scale negative m (power - n)
          .ok (.float bits, rest)
      | [] => do
        let bits ← scale negative m (power - n)
        .ok (.float bits, rest)

/-- What follows the integer digits of a number: `dropped` digits did not fit. -/
def numberTail (negative : Bool) (m dropped : Nat) : Reader Number := fun s =>
  match s with
  | b :: rest =>
    if ascii b = '.' then fractionPart negative m dropped rest
    else if ascii b = 'e' ∨ ascii b = 'E' then exponentPart negative m dropped rest
    else whole s
  | [] => whole s
where
  /-- A number without point and exponent. Negative zero and what leaves sixty-four bits are
  fractions. -/
  whole (s : Bytes) : Except Flaw (Number × Bytes) :=
    if dropped ≠ 0 then do
      let bits ← scale negative m dropped
      .ok (.float bits, s)
    else if !negative then .ok (.int m, s)
    else if m = 0 ∨ twoTo 63 < m then .ok (.float (-(UInt64.ofNat m).toFloat).toBits, s)
    else .ok (.int (-(m : Int)), s)

/-- A number, its sign taken. No digit may follow a leading zero. -/
def number (negative : Bool) : Reader Number
  | [] => .error .endInValue
  | b :: s =>
    if ascii b = '0' then
      match s with
      | d :: _ => if isDigit d then .error .invalidNumber else numberTail negative 0 0 s
      | [] => numberTail negative 0 0 s
    else if isDigit b then
      let (m, dropped, s) := takeDigits (digitValue b) s
      numberTail negative m dropped s
    else .error .invalidNumber

/-- Passes over an exponent, its letter taken. -/
def skipExponent (s : Bytes) : Except Flaw Bytes :=
  let s :=
    match s with
    | b :: rest => if ascii b = '-' ∨ ascii b = '+' then rest else s
    | [] => s
  match s with
  | b :: _ => if isDigit b then .ok (s.dropWhile isDigit) else .error .invalidNumber
  | [] => .error .invalidNumber

/-- Passes over a number, its sign taken. Its size does not matter. -/
def skipNumber : Bytes → Except Flaw Bytes
  | [] => .error .invalidNumber
  | b :: s =>
    if !isDigit b then .error .invalidNumber
    else if ascii b = '0' ∧ (s.headD 0 |> isDigit) then .error .invalidNumber
    else
      let s := if ascii b = '0' then s else s.dropWhile isDigit
      match s with
      | b :: rest =>
        if ascii b = '.' then
          match rest with
          | d :: _ =>
            if !isDigit d then .error .invalidNumber
            else
              match rest.dropWhile isDigit with
              | e :: after =>
                if ascii e = 'e' ∨ ascii e = 'E' then skipExponent after else .ok (e :: after)
              | [] => .ok []
          | [] => .error .invalidNumber
        else if ascii b = 'e' ∨ ascii b = 'E' then skipExponent rest
        else .ok s
      | [] => .ok s

/-! ## Lists and objects, piece by piece -/

/-- Is there another item in a list? The closing bracket is left where it is. -/
def nextItem (first : Bool) : Reader Bool := fun s =>
  match skipBlanks s with
  | [] => .error .endInList
  | b :: rest =>
    if ascii b = ']' then .ok (false, b :: rest)
    else if ascii b = ',' ∧ !first then
      match skipBlanks rest with
      | [] => .error .endInValue
      | c :: rest => if ascii c = ']' then .error .trailingComma else .ok (true, c :: rest)
    else if first then .ok (true, b :: rest)
    else .error .expectedCommaOrBracket

/-- The closing bracket of a list. -/
def endList : Reader Unit := fun s =>
  match skipBlanks s with
  | [] => .error .endInList
  | b :: rest =>
    if ascii b = ']' then .ok ((), rest)
    else if ascii b = ',' then
      match skipBlanks rest with
      | c :: _ => if ascii c = ']' then .error .trailingComma else .error .trailingCharacters
      | [] => .error .trailingCharacters
    else .error .trailingCharacters

/-- The key of the next member of an object, if there is another one. The closing brace is left
where it is. -/
def nextKey (first : Bool) : Reader (Option String) := fun s =>
  match skipBlanks s with
  | [] => .error .endInObject
  | b :: rest =>
    if ascii b = '\x7d' then .ok (none, b :: rest)
    else if ascii b = ',' ∧ !first then
      match skipBlanks rest with
      | [] => .error .endInValue
      | c :: rest =>
        if ascii c = '"' then (stringBody rest).map fun (k, s) => (some k, s)
        else if ascii c = '\x7d' then .error .trailingComma
        else .error .keyNotString
    else if first then
      if ascii b = '"' then (stringBody rest).map fun (k, s) => (some k, s)
      else .error .keyNotString
    else .error .expectedCommaOrBrace

/-- The colon between a key and its value. -/
def colon : Reader Unit := fun s =>
  match skipBlanks s with
  | [] => .error .endInObject
  | b :: rest => if ascii b = ':' then .ok ((), rest) else .error .expectedColon

/-- The closing brace of an object. -/
def endObject : Reader Unit := fun s =>
  match skipBlanks s with
  | [] => .error .endInObject
  | b :: rest =>
    if ascii b = '\x7d' then .ok ((), rest)
    else if ascii b = ',' then .error .trailingComma
    else .error .trailingCharacters

/-- Items read one after the other up to the closing bracket, which is left where it is. -/
def itemsUntilEnd {α : Type} (item : Reader α) : Nat → Bool → Reader (List α)
  | 0, _, _ => .error .endInList
  | fuel + 1, first, s => do
    let (more, s) ← nextItem first s
    if more then
      let (x, s) ← item s
      let (xs, s) ← itemsUntilEnd item fuel false s
      .ok (x :: xs, s)
    else .ok ([], s)

/-- The items of a list, its opening bracket taken. -/
def items {α : Type} (item : Reader α) : Reader (List α) := fun s => do
  let (xs, s) ← itemsUntilEnd item (s.length + 1) true s
  let ((), s) ← endList s
  .ok (xs, s)

/-- Members read one after the other up to the closing brace, which is left where it is. -/
def membersUntilEnd {α : Type} (item : Reader α) : Nat → Bool → Reader (List (String × α))
  | 0, _, _ => .error .endInObject
  | fuel + 1, first, s => do
    let (key, s) ← nextKey first s
    match key with
    | none => .ok ([], s)
    | some k =>
      let ((), s) ← colon s
      let (x, s) ← item s
      let (xs, s) ← membersUntilEnd item fuel false s
      .ok ((k, x) :: xs, s)

/-- The members of an object, its opening brace taken. -/
def members {α : Type} (item : Reader α) : Reader (List (String × α)) := fun s => do
  let (xs, s) ← membersUntilEnd item (s.length + 1) true s
  let ((), s) ← endObject s
  .ok (xs, s)

/-! ## Whole values -/

/-- One value, given the reader for values nested inside it; without one nesting is refused. -/
def valueWith (nested : Option (Reader Json)) : Reader Json := fun s =>
  match skipBlanks s with
  | [] => .error .endInValue
  | b :: rest =>
    match ascii b with
    | 'n' => (literal ['u', 'l', 'l'] rest).map fun (_, s) => (.null, s)
    | 't' => (literal ['r', 'u', 'e'] rest).map fun (_, s) => (.bool true, s)
    | 'f' => (literal ['a', 'l', 's', 'e'] rest).map fun (_, s) => (.bool false, s)
    | '-' => (number true rest).map fun (n, s) => (n.toJson, s)
    | '"' => (stringBody rest).map fun (t, s) => (.str t, s)
    | '[' =>
      match nested with
      | none => .error .tooDeep
      | some inner => (items inner rest).map fun (xs, s) => (.arr xs, s)
    | '\x7b' =>
      match nested with
      | none => .error .tooDeep
      | some inner => (members inner rest).map fun (ms, s) => (object ms, s)
    | _ =>
      if isDigit b then (number false (b :: rest)).map fun (n, s) => (n.toJson, s)
      else .error .expectedValue

/-- One value with at most `room` levels of lists and objects. -/
def value : Nat → Reader Json
  | 0 => valueWith none
  | room + 1 => valueWith (some (value room))

/-- The levels of nesting that a text read as a free value may have. -/
def maxDepth : Nat := 127

/-- An open list or object. -/
inductive Frame where
  | list
  | object
deriving DecidableEq, Repr

/-- After a whole value, or after an opening bracket (`fresh`): closes what ends here and goes on to
the place where the next value starts. Returns the frames that are then open; none open means that
the outermost value has ended. -/
def skipToNext : Nat → Bool → List Frame → Reader (List Frame)
  | _, _, [], s => .ok ([], s)
  | 0, _, _, _ => .error .endInValue
  | fuel + 1, fresh, frame :: outer, s =>
    match skipBlanks s with
    | [] => .error (match frame with | .list => .endInList | .object => .endInObject)
    | b :: rest =>
      if ascii b = ',' ∧ !fresh then intoFrame frame outer rest
      else if ascii b = ']' ∧ frame = .list then skipToNext fuel false outer rest
      else if ascii b = '\x7d' ∧ frame = .object then skipToNext fuel false outer rest
      else if fresh then intoFrame frame outer (b :: rest)
      else .error (match frame with | .list => .expectedCommaOrBracket | .object => .expectedCommaOrBrace)
where
  /-- In a list the next value follows at once, in an object after its key. -/
  intoFrame (frame : Frame) (outer : List Frame) (s : Bytes) : Except Flaw (List Frame × Bytes) :=
    match frame with
    | .list => .ok (frame :: outer, s)
    | .object =>
      match skipBlanks s with
      | [] => .error .endInObject
      | b :: rest =>
        if ascii b = '"' then do
          let ((), s) ← skipString (rest.length + 1) rest
          let ((), s) ← colon s
          .ok (frame :: outer, s)
        else .error .keyNotString

/-- Passes over values until no frame is open. -/
def skipLoop : Nat → List Frame → Reader Unit
  | 0, _, _ => .error .endInValue
  | fuel + 1, frames, s =>
    match skipBlanks s with
    | [] => .error .endInValue
    | b :: rest => do
      let (fresh, frames, s) ←
        match ascii b with
        | 'n' => (literal ['u', 'l', 'l'] rest).map fun (_, s) => (false, frames, s)
        | 't' => (literal ['r', 'u', 'e'] rest).map fun (_, s) => (false, frames, s)
        | 'f' => (literal ['a', 'l', 's', 'e'] rest).map fun (_, s) => (false, frames, s)
        | '-' => (skipNumber rest).map fun s => (false, frames, s)
        | '"' => (skipString (rest.length + 1) rest).map fun (_, s) => (false, frames, s)
        | '[' => .ok (true, .list :: frames, rest)
        | '\x7b' => .ok (true, .object :: frames, rest)
        | _ =>
          if isDigit b then (skipNumber (b :: rest)).map fun s => (false, frames, s)
          else .error .expectedValue
      let (frames, s) ← skipToNext (s.length + 1) fresh frames s
      match frames with
      | [] => .ok ((), s)
      | _ :: _ => skipLoop fuel frames s

/-- Passes over one value of any depth. -/
def skipValue : Reader Unit := fun s => skipLoop (s.length + 1) [] s

/-! ## Whole texts -/

/-- Applies a reader to a whole text: nothing but blanks may follow. -/
def readAll {α : Type} (r : Reader α) (s : Bytes) : Except Flaw α := do
  let (x, s) ← r s
  match skipBlanks s with
  | [] => .ok x
  | _ :: _ => .error .trailingCharacters

/-- The free value that a text holds. -/
def parse (s : Bytes) : Except Flaw Json :=
  readAll (value maxDepth) s

end Courier.Json
