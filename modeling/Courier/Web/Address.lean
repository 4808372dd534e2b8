/-
# Courier.Web.Address -- where a request goes

An address has a scheme, a host, perhaps a port, and a target on that host. Reading is lenient about
what stands around these parts: blanks at the ends, ends of lines, any number of slashes of either
kind before the host, a name and a password. It is strict about the host: one that ends in a number
has to be a numeric address, and some characters can be in no host.
-/
import Courier.Decimal.Power
import Courier.Text.Utf8

namespace Courier.Web

/-- Where a request goes. -/
structure Address where
  isSecure : Bool
  host : String
  port : Option Nat
  /-- Path and query. -/
  target : String
deriving DecidableEq, Repr

namespace Address

/-! ## Numbers -/

def hexDigit? (c : Char) : Option Nat :=
  if c.isDigit then some (c.toNat - '0'.toNat)
  else if 'a' ≤ c && c ≤ 'f' then some (c.toNat - 'a'.toNat + 10)
  else if 'A' ≤ c && c ≤ 'F' then some (c.toNat - 'A'.toNat + 10)
  else none

/-- A number in a base of at most sixteen. -/
def natural? (base : Nat) (digits : List Char) : Option Nat :=
  digits.foldlM (fun n c => do
    let d ← hexDigit? c
    if d < base then some (base * n + d) else none) 0

/-- A port; none stands for the usual one. -/
def port? (digits : List Char) : Option (Option Nat) :=
  if digits.isEmpty then some none
  else do
    let n ← natural? 10 digits
    if n < 65536 then some (some n) else none

/-! ## Hosts -/

/-- One part of a numeric address. -/
def part? : List Char → Option Nat
  | [] => none
  | '0' :: 'x' :: digits | '0' :: 'X' :: digits => natural? 16 digits
  | '0' :: d :: digits => natural? 8 (d :: digits)
  | digits => natural? 10 digits

/-- The parts between dots; a dot at the end counts for nothing. -/
def labels (host : List Char) : List (List Char) :=
  let parts := host.splitOn '.'
  if 1 < parts.length && parts.getLast? = some [] then parts.dropLast else parts

/-- Does the host end in a number? -/
def endsInNumber (host : List Char) : Bool :=
  match (labels host).getLast? with
  | none | some [] => false
  | some l => l.all Char.isDigit || (part? l).isSome

/-- A numeric address of at most four parts; the last one fills what the others leave. -/
def isFourPart (host : List Char) : Bool :=
  let parts := labels host
  match parts.mapM part? with
  | none => false
  | some numbers =>
    numbers.length ≤ 4 && numbers.dropLast.all (· ≤ 255) &&
      decide (numbers.getLast?.getD 0 < twoTo (8 * (5 - numbers.length)))

/-- The number of 16-bit pieces in a row of them; the last one may be a numeric address of four
decimal parts, which counts for two. -/
def pieces? (s : List Char) : Option Nat :=
  if s.isEmpty then some 0
  else
    let row := s.splitOn ':'
    let isPiece (p : List Char) : Bool := !p.isEmpty && p.length ≤ 4 && (natural? 16 p).isSome
    let isPlain (p : List Char) : Bool :=
      let parts := p.splitOn '.'
      parts.length == 4 && parts.all fun d =>
        !d.isEmpty && d.length ≤ 3 && (d.length == 1 || d.head? ≠ some '0') &&
          ((natural? 10 d).map fun n => decide (n ≤ 255)).getD false
    if row.all isPiece then some row.length
    else if row.dropLast.all isPiece && isPlain (row.getLast?.getD []) then some (row.length + 1)
    else none

/-- Where two colons stand in a row: what is before them, and what is after. -/
def gap? : List Char → Option (List Char × List Char)
  | ':' :: ':' :: rest => some ([], rest)
  | c :: rest => (gap? rest).map fun (before, after) => (c :: before, after)
  | [] => none

/-- An address of eight pieces; two colons in a row stand for pieces of zero. -/
def isEightPiece (s : List Char) : Bool :=
  match gap? s with
  | none => pieces? s == some 8
  | some (before, after) =>
    match pieces? before, pieces? after with
    | some m, some n => m + n ≤ 7 && !before.contains '.'
    | _, _ => false

/-- Percent signs with two digits after them, as the bytes that they stand for. -/
def unescaped : List Char → Bytes
  | '%' :: a :: b :: rest =>
    match hexDigit? a, hexDigit? b with
    | some x, some y => UInt8.ofNat (16 * x + y) :: unescaped rest
    | _, _ => UInt8.ofNat '%'.toNat :: unescaped (a :: b :: rest)
  | c :: rest => Utf8.encodeChar c ++ unescaped rest
  | [] => []

/-- Characters that can be in no host. -/
def isForbidden (c : Char) : Bool :=
  c.toNat ≤ 0x20 || c.toNat = 0x7F || "\"#%/:<>?@[\\]^\x60\x7b|\x7d".toList.contains c

/-- The host that a text names. -/
def host? (s : List Char) : Option String :=
  match s with
  | '[' :: rest =>
    match rest.getLast? with
    | some ']' => if isEightPiece rest.dropLast then some (String.ofList s).toLower else none
    | _ => none
  | _ => do
    let host ← Utf8.decode? (unescaped s)
    let cs := host.toList
    guard (!cs.isEmpty && !cs.any isForbidden)
    guard (!endsInNumber cs || isFourPart cs)
    some host.toLower

/-- Host and port. -/
def hostAndPort? (s : List Char) : Option (String × Option Nat) :=
  let (host, rest) :=
    match s with
    | '[' :: _ =>
      let (inside, rest) := s.span (· ≠ ']')
      (inside ++ rest.take 1, rest.drop 1)
    | _ => s.span (· ≠ ':')
  match rest with
  | [] => (host? host).map (·, none)
  | ':' :: digits => do some (← host? host, ← port? digits)
  | _ => none

/-! ## Targets -/

/-- Path segments without those that only lead around; the last one says where the path ends. -/
def settled (segments : List (List Char)) : List (List Char) :=
  let isDot (s : List Char) : Bool := ["." , "%2e", "%2E"].contains (String.ofList s)
  let isDots (s : List Char) : Bool := ["..", ".%2e", ".%2E", "%2e.", "%2E.", "%2e%2e", "%2E%2E",
    "%2e%2E", "%2E%2e"].contains (String.ofList s)
  let kept := segments.foldl (fun (kept : List (List Char)) s =>
    if isDots s then kept.drop 1 else if isDot s then kept else s :: kept) []
  let isOpen := (segments.getLast?.map fun s => isDot s || isDots s).getD false
  (if isOpen then [] :: kept else kept).reverse

/-- A character of a target; those that cannot stand there are written as bytes. -/
def escapeChar (special : String) (c : Char) : List Char :=
  if c.toNat ≤ 0x20 || 0x7E < c.toNat || special.toList.contains c then
    (Utf8.encodeChar c).flatMap fun b =>
      let digits := (Nat.toDigits 16 b.toNat).map Char.toUpper
      '%' :: (if digits.length = 1 then '0' :: digits else digits)
  else [c]

/-- The target that stands after a host. -/
def targetOf (s : List Char) : String :=
  let s := s.takeWhile (· ≠ '#')
  let (path, query) := s.span (· ≠ '?')
  let segments := (path.map fun c => if c = '\\' then '/' else c).splitOn '/'
  let escaped := (segments.drop 1).map fun s => s.flatMap (escapeChar "\"<>^\x60\x7b\x7d")
  let path := '/' :: ['/'].intercalate (settled escaped)
  String.ofList (path ++ query.flatMap (escapeChar "\"<>'"))

/-! ## Reading -/

def isSlash (c : Char) : Bool := c = '/' || c = '\\'

/-- The text without controls and blanks at its ends and without tabs and ends of lines. -/
def trimmed (s : List Char) : List Char :=
  let isOuter (c : Char) : Bool := c.toNat ≤ 0x20
  (((s.dropWhile isOuter).reverse.dropWhile isOuter).reverse).filter fun c =>
    c ≠ '\t' && c ≠ '\n' && c ≠ '\r'

/-- The scheme in small letters, and what follows its colon. -/
def scheme? (s : List Char) : Option (String × List Char) :=
  match s.span fun c => c.isAlphanum || c = '+' || c = '-' || c = '.' with
  | (c :: cs, ':' :: rest) =>
    if c.isAlpha then some ((String.ofList (c :: cs)).toLower, rest) else none
  | _ => none

/-- What follows the scheme. -/
def afterScheme (isSecure : Bool) (s : List Char) : Option Address := do
  let (authority, rest) :=
    (s.dropWhile isSlash).span fun c => !isSlash c && c ≠ '?' && c ≠ '#'
  let (host, port) ← hostAndPort? ((authority.splitOn '@').getLast?.getD [])
  let usual := if isSecure then 443 else 80
  some { isSecure, host, port := port.filter (· ≠ usual), target := targetOf rest }

/-- The address in a text, if it is a complete one and its scheme is that of the web. -/
def ofText? (text : String) : Option Address :=
  match scheme? (trimmed text.toList) with
  | some ("http", rest) => afterScheme false rest
  | some ("https", rest) => afterScheme true rest
  | _ => none

/-- The address in a text that may leave out what it has in common with another address. -/
def relative? (base : Address) (text : String) : Option Address :=
  let s := trimmed text.toList
  match scheme? s with
  | some _ => ofText? text
  | none =>
    match s with
    | a :: b :: _ =>
      if isSlash a && isSlash b then afterScheme base.isSecure s
      else some { base with target := targetOf (within s) }
    | _ => some { base with target := targetOf (within s) }
where
  /-- The target as it would stand after the host. -/
  within (s : List Char) : List Char :=
    let (path, _) := base.target.toList.span (· ≠ '?')
    match s with
    | [] => base.target.toList
    | '?' :: _ => path ++ s
    | '#' :: _ => base.target.toList
    | c :: _ =>
      if isSlash c then s else (path.reverse.dropWhile (· ≠ '/')).reverse ++ s

end Address

end Courier.Web
