/-
# Courier.Toml.Reader -- the statements of a settings file

A settings file is a sequence of lines, and a statement is a header, a doubled header, or a key with a
value. The readers of this module take the characters that are left and return what they read with
the characters after it; a flaw anywhere makes the whole file unreadable, so there is one way to
fail and no message. What the statements make together is decided in `Courier.Toml.Document`.

Values nest at most `maxDepth` deep, and the readers of lists and of tables between braces recurse on
what is left of that depth.
-/
import Courier.Toml.Value

namespace Courier.Toml

/-- Reads something from the front of a text. -/
abbrev Reader (α : Type) := List Char → Option (α × List Char)

/-! ## Characters and blanks -/

/-- Blanks inside a line. -/
def isBlank (c : Char) : Bool := c = ' ' || c = '\t'

/-- Characters that can stand in a comment and in every kind of quoted text. -/
def isPrintable (c : Char) : Bool := c = '\t' || (0x20 ≤ c.toNat && c.toNat ≠ 0x7F)

/-- Characters of a key without quotes. -/
def isBare (c : Char) : Bool := c.isAlphanum || c = '_' || c = '-'

def skipBlanks (s : List Char) : List Char := s.dropWhile isBlank

/-- The characters after the end of a line, if it ends here. -/
def newline? : List Char → Option (List Char)
  | '\n' :: rest => some rest
  | '\r' :: '\n' :: rest => some rest
  | _ => none

/-- The characters after a comment, if there is one; they start with the end of its line. -/
def skipComment : List Char → List Char
  | '#' :: rest => rest.dropWhile isPrintable
  | s => s

/-- Blanks, comments and ends of lines, as they may stand between the items of a list. -/
def skipLines : Nat → List Char → List Char
  | 0, s => s
  | fuel + 1, s =>
    match newline? (skipComment (skipBlanks s)) with
    | some rest => skipLines fuel rest
    | none => skipBlanks s

/-- The rest of a line that holds no more than a comment. -/
def endLine (s : List Char) : Option (List Char) :=
  match skipComment (skipBlanks s) with
  | [] => some []
  | rest => newline? rest

/-- A character that has to follow. -/
def expect (c : Char) : List Char → Option (List Char)
  | d :: rest => if c = d then some rest else none
  | [] => none

/-! ## Quoted texts -/

def hexValue? (c : Char) : Option Nat :=
  if c.isDigit then some (c.toNat - '0'.toNat)
  else if 'a' ≤ c && c ≤ 'f' then some (c.toNat - 'a'.toNat + 10)
  else if 'A' ≤ c && c ≤ 'F' then some (c.toNat - 'A'.toNat + 10)
  else none

/-- The character with a code in hexadecimal digits. -/
def scalar? (digits : List Char) : Option Char := do
  let values ← digits.mapM hexValue?
  let n := values.foldl (fun n d => 16 * n + d) 0
  if n < 0xD800 || (0xDFFF < n && n < 0x110000) then some (Char.ofNat n) else none

/-- The character of a short escape. -/
def escaped? : Char → Option Char
  | 'b' => some '\x08'
  | 't' => some '\t'
  | 'n' => some '\n'
  | 'f' => some '\x0c'
  | 'r' => some '\r'
  | '"' => some '"'
  | '\\' => some '\\'
  | _ => none

/-- An escape without its backslash. -/
def escape : Reader Char
  | 'u' :: rest => do
    guard (4 ≤ rest.length)
    some (← scalar? (rest.take 4), rest.drop 4)
  | 'U' :: rest => do
    guard (8 ≤ rest.length)
    some (← scalar? (rest.take 8), rest.drop 8)
  | c :: rest => (escaped? c).map (·, rest)
  | [] => none

/-- A text with escapes after its opening quote, up to the closing one. -/
def basicBody : Nat → Reader (List Char)
  | _, '"' :: rest => some ([], rest)
  | fuel + 1, '\\' :: s => do
    let (c, rest) ← escape s
    let (text, rest) ← basicBody fuel rest
    some (c :: text, rest)
  | fuel + 1, c :: s => do
    guard (isPrintable c)
    let (text, rest) ← basicBody fuel s
    some (c :: text, rest)
  | _, _ => none

/-- A text without escapes after its opening quote. -/
def literalBody (s : List Char) : Option (List Char × List Char) :=
  match s.span fun c => isPrintable c && c ≠ '\'' with
  | (text, '\'' :: rest) => some (text, rest)
  | _ => none

/-- A text on one line, with its quotes. -/
def quotedLine : Reader (List Char)
  | '"' :: rest => basicBody rest.length rest
  | '\'' :: rest => literalBody rest
  | _ => none

/-- The blanks and ends of lines after a backslash that ends a line. -/
def skipIndent : Nat → List Char → List Char
  | 0, s => s
  | fuel + 1, s =>
    match newline? (skipBlanks s) with
    | some rest => skipIndent fuel rest
    | none => skipBlanks s

/-- The end of a text over several lines: three quotes in a row, and one or two more of them before
that belong to the text. -/
def closing? (quote : Char) (s : List Char) : Option (List Char × List Char) :=
  let run := (s.takeWhile (· = quote)).length
  if 3 ≤ run then
    let own := min (run - 3) 2
    some (List.replicate own quote, s.drop (own + 3))
  else none

/-- One character of a text over several lines, or an end of line that a backslash hides. -/
def linesPiece (escapes : Bool) : Reader (List Char)
  | [] => none
  | c :: s =>
    if c = '\\' && escapes then
      match newline? (skipBlanks s) with
      | some rest => some ([], skipIndent rest.length rest)
      | none => (escape s).map fun (c, rest) => ([c], rest)
    else
      match newline? (c :: s) with
      | some rest => some (['\n'], rest)
      | none => if isPrintable c then some ([c], s) else none

/-- A text over several lines, after its opening quotes. -/
def linesBody (quote : Char) : Nat → Reader (List Char)
  | 0, _ => none
  | fuel + 1, s =>
    match closing? quote s with
    | some found => some found
    | none => do
      let (piece, rest) ← linesPiece (quote = '"') s
      let (text, rest) ← linesBody quote fuel rest
      some (piece ++ text, rest)

/-- A text after three opening quotes; an end of line right after them is not part of it. -/
def quotedLines (quote : Char) (s : List Char) : Option (List Char × List Char) :=
  linesBody quote (s.length + 1) ((newline? s).getD s)

/-- A quoted text as a value. -/
def quotedText : Reader String
  | '"' :: '"' :: '"' :: rest => text (quotedLines '"' rest)
  | '\'' :: '\'' :: '\'' :: rest => text (quotedLines '\'' rest)
  | s => text (quotedLine s)
where
  text (r : Option (List Char × List Char)) : Option (String × List Char) :=
    r.map fun (cs, rest) => (String.ofList cs, rest)

/-! ## Keys -/

/-- One name of a key. -/
def name (s : List Char) : Option (String × List Char) :=
  match s with
  | '"' :: _ | '\'' :: _ => (quotedLine s).map fun (cs, rest) => (String.ofList cs, rest)
  | _ =>
    match s.span isBare with
    | ([], _) => none
    | (cs, rest) => some (String.ofList cs, rest)

/-- The names of a key and the blanks around them. -/
def names : Nat → Reader Key
  | 0, _ => none
  | fuel + 1, s => do
    let (n, rest) ← name (skipBlanks s)
    match skipBlanks rest with
    | '.' :: rest => do
      let (ns, rest) ← names fuel rest
      some (n :: ns, rest)
    | rest => some ([n], rest)

/-- How deep values can nest, and how many names a key can have. -/
def maxDepth : Nat := 79

def key (s : List Char) : Option (Key × List Char) :=
  names maxDepth s

/-! ## Numbers -/

/-- Digits, with single underscores between them. -/
def digits (isDigit : Char → Bool) (s : List Char) : Option (List Char × List Char) :=
  match more s with
  | ([], _) => none
  | found => some found
where
  /-- All digits from here on. -/
  more : List Char → List Char × List Char
    | '_' :: d :: rest =>
      if isDigit d then
        let (ds, rest) := more rest
        (d :: ds, rest)
      else ([], '_' :: d :: rest)
    | d :: rest =>
      if isDigit d then
        let (ds, rest) := more rest
        (d :: ds, rest)
      else ([], d :: rest)
    | [] => ([], [])

/-- A number that starts with a digit. -/
def startsWithDigit (isDigit : Char → Bool) : List Char → Bool
  | d :: _ => isDigit d
  | [] => false

def naturalOf (base : Nat) (ds : List Char) : Nat :=
  ds.foldl (fun n d => base * n + (hexValue? d).getD 0) 0

/-- An optional sign: is the number negative? -/
def sign : List Char → Bool × List Char
  | '-' :: rest => (true, rest)
  | '+' :: rest => (false, rest)
  | s => (false, s)

/-- Digits of a whole number; only zero starts with a zero. -/
def whole (s : List Char) : Option (List Char × List Char) :=
  match s with
  | '0' :: rest => some (['0'], rest)
  | _ => do
    guard (startsWithDigit Char.isDigit s)
    digits Char.isDigit s

/-- Whole numbers fit in 64 bits with a sign. -/
def bounded (z : Int) : Option Int :=
  if -(twoTo 63 : Int) ≤ z && z < twoTo 63 then some z else none

/-- A whole number in a base that its second character names. -/
def based (base : Nat) (isDigit : Char → Bool) (s : List Char) : Option (Int × List Char) := do
  guard (startsWithDigit isDigit s)
  let (ds, rest) ← digits isDigit s
  some (← bounded (naturalOf base ds), rest)

def integer : Reader Int
  | '0' :: 'x' :: rest => based 16 (fun c => (hexValue? c).isSome) rest
  | '0' :: 'o' :: rest => based 8 (fun c => '0' ≤ c && c ≤ '7') rest
  | '0' :: 'b' :: rest => based 2 (fun c => c = '0' || c = '1') rest
  | s => do
    let (negative, s) := sign s
    let (ds, rest) ← whole s
    let n : Int := naturalOf 10 ds
    some (← bounded (if negative then -n else n), rest)

/-- The fraction of a number, with its point. -/
def fraction (s : List Char) : Option (List Char × List Char) := do
  let s ← expect '.' s
  guard (startsWithDigit Char.isDigit s)
  digits Char.isDigit s

/-- The exponent of a number, with its letter. -/
def exponent : Reader Int
  | [] => none
  | c :: s => do
    guard (c = 'e' || c = 'E')
    let (negative, s) := sign s
    guard (startsWithDigit Char.isDigit s)
    let (ds, rest) ← digits Char.isDigit s
    let n : Int := naturalOf 10 ds
    some (if negative then -n else n, rest)

/-- Infinity or no number, after the sign. -/
def specialNumber (negative : Bool) : Reader Number
  | 'i' :: 'n' :: 'f' :: rest => some (.infinity negative, rest)
  | 'n' :: 'a' :: 'n' :: rest => some (.nan, rest)
  | _ => none

/-- A number with a fraction, an exponent or both. A number above the finite ones is refused; one below
them is negative infinity. -/
def number (s : List Char) : Option (Number × List Char) :=
  let (negative, s) := sign s
  finite negative s <|> specialNumber negative s
where
  finite (negative : Bool) (s : List Char) : Option (Number × List Char) := do
    let (ds, s) ← whole s
    let (fs, power, rest) ←
      match fraction s with
      | some (fs, s) =>
        match exponent s with
        | some (e, rest) => some (fs, e, rest)
        | none => some (fs, 0, s)
      | none => (exponent s).map fun (e, rest) => ([], e, rest)
    let x : Number := .decimal negative (naturalOf 10 (ds ++ fs)) (power - fs.length)
    if x.isTooLarge then none else some (x, rest)

/-! ## Dates and times -/

/-- A number of exactly so many digits. -/
def fixed (count : Nat) (s : List Char) : Option (Nat × List Char) :=
  let ds := s.take count
  if ds.length = count && ds.all Char.isDigit then some (naturalOf 10 ds, s.drop count) else none

def day (s : List Char) : Option (Day × List Char) := do
  let (year, s) ← fixed 4 s
  let (month, s) ← fixed 2 (← expect '-' s)
  let (dayOfMonth, rest) ← fixed 2 (← expect '-' s)
  let d : Day := ⟨year, month, dayOfMonth⟩
  guard d.isValid
  some (d, rest)

def clock (s : List Char) : Option (Clock × List Char) := do
  let (hour, s) ← fixed 2 s
  let (minute, s) ← fixed 2 (← expect ':' s)
  let (second, s) ← fixed 2 (← expect ':' s)
  let (fraction, rest) :=
    match s with
    | '.' :: s =>
      match s.span Char.isDigit with
      | ([], _) => ([], '.' :: s)
      | (ds, rest) => (ds.map fun d => d.toNat - '0'.toNat, rest)
    | _ => ([], s)
  let c : Clock := ⟨hour, minute, second, fraction⟩
  guard c.isValid
  some (c, rest)

/-- The distance from universal time, in minutes. -/
def offset : Reader Int
  | [] => none
  | c :: s =>
    if c = 'Z' || c = 'z' then some (0, s)
    else do
      guard (c = '+' || c = '-')
      let (hours, s) ← fixed 2 s
      let (minutes, rest) ← fixed 2 (← expect ':' s)
      guard (hours ≤ 23 && minutes ≤ 59)
      let n : Int := hours * 60 + minutes
      some (if c = '-' then -n else n, rest)

/-- The time that follows a date, after one character between them. -/
def clockAfterDay : Reader (Clock × Option Int)
  | [] => none
  | c :: s => do
    guard (c = 'T' || c = 't' || c = ' ')
    let (t, rest) ← clock s
    match offset rest with
    | some (minutes, rest) => some ((t, some minutes), rest)
    | none => some ((t, none), rest)

def moment (s : List Char) : Option (Moment × List Char) :=
  match day s with
  | some (d, rest) =>
    match clockAfterDay rest with
    | some ((t, minutes), rest) => some (.both d t minutes, rest)
    | none => some (.day d, rest)
  | none => (clock s).map fun (t, rest) => (.clock t, rest)

/-! ## Values -/

/-- A value that holds no other one. -/
def simpleValue (s : List Char) : Option (Value × List Char) :=
  match s with
  | '"' :: _ | '\'' :: _ => (quotedText s).map fun (t, rest) => (.string t, rest)
  | 't' :: 'r' :: 'u' :: 'e' :: rest => some (.boolean true, rest)
  | 'f' :: 'a' :: 'l' :: 's' :: 'e' :: rest => some (.boolean false, rest)
  | _ =>
    (moment s).map (fun (m, rest) => (.moment m, rest))
      <|> (number s).map (fun (x, rest) => (.float x, rest))
      <|> (integer s).map (fun (z, rest) => (.integer z, rest))

/-- The items of a list after its opening bracket, up to the closing one; a comma may follow the last
item. -/
def items (value : Reader Value) : Nat → Reader (List Value)
  | 0, _ => none
  | fuel + 1, s =>
    match skipLines s.length s with
    | ']' :: rest => some ([], rest)
    | s => do
      let (v, rest) ← value s
      match skipLines rest.length rest with
      | ',' :: rest => do
        let (vs, rest) ← items value fuel rest
        some (v :: vs, rest)
      | ']' :: rest => some ([v], rest)
      | _ => none

/-- A key and its value. -/
def assignment (value : Reader Value) (s : List Char) : Option ((Key × Value) × List Char) := do
  let (k, s) ← key s
  let (v, rest) ← value (skipBlanks (← expect '=' s))
  some ((k, v), skipBlanks rest)

/-- The entries of a table between braces, from the first key on, added to those before. -/
def members (value : Reader Value) : Nat → Entries → Reader Entries
  | 0, _, _ => none
  | fuel + 1, es, s => do
    let ((k, v), rest) ← assignment value s
    let es ← es.assign k v
    match rest with
    | ',' :: rest => members value fuel es rest
    | '\x7d' :: rest => some (es, rest)
    | _ => none

/-- A value in which others can still nest so deep. -/
def value : Nat → Reader Value
  | 0, s => simpleValue s
  | depth + 1, s =>
    match s with
    | '[' :: rest => (items (value depth) (rest.length + 1) rest).map fun (vs, rest) => (.array vs, rest)
    | '\x7b' :: rest =>
      match skipBlanks rest with
      | '\x7d' :: rest => some (.table .braces [], rest)
      | _ =>
        (members (value depth) (rest.length + 1) [] rest).map fun (es, rest) =>
          (.table .braces es, rest)
    | _ => simpleValue s

/-! ## Statements -/

/-- What a line says. -/
inductive Statement where
  /-- The lines that follow are entries of this table. -/
  | header (k : Key)
  /-- The lines that follow are entries of one more table of this name. -/
  | element (k : Key)
  | assignment (k : Key) (v : Value)

def statement : Reader Statement
  | '[' :: '[' :: s => do
    let (k, s) ← key s
    some (.element k, ← expect ']' (← expect ']' s))
  | '[' :: s => do
    let (k, s) ← key s
    some (.header k, ← expect ']' s)
  | s => do
    let ((k, v), rest) ← assignment (value maxDepth) s
    some (.assignment k v, rest)

/-- The statements of a text, a line each; blank lines and comments say nothing. -/
def statements : Nat → List Char → Option (List Statement)
  | 0, _ => none
  | fuel + 1, s =>
    match skipBlanks s with
    | [] => some []
    | s =>
      match endLine s with
      | some rest => statements fuel rest
      | none => do
        let (st, rest) ← statement s
        let sts ← statements fuel (← endLine rest)
        some (st :: sts)

end Courier.Toml
