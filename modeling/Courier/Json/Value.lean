/-
# Courier.Json.Value -- JSON values and their one written form

Details of audit entries are free JSON values, and every record of the program has a JSON text. A
value keeps integers apart from binary fractions, because the two are written differently, and keeps
the members of an object in a list, because the written order is part of the text. `Json.object`
builds the canonical object: keys in increasing order, each once, the last mention winning.

The written form is compact. Strings escape the quote, the backslash and the control characters and
leave every other character as it is; fractions use the fewest digits that read back.
-/
import Courier.Decimal.Shortest

namespace Courier

/-- A JSON value. A fraction is kept as the sixty-four bits of its binary form. -/
inductive Json where
  | null
  | bool (b : Bool)
  | int (z : Int)
  | float (bits : UInt64)
  | str (s : String)
  | arr (items : List Json)
  | obj (members : List (String × Json))
deriving Repr, Inhabited, BEq

namespace Json

/-! ## Canonical objects -/

/-- Puts a member into a list sorted by key; a member with the same key is replaced. -/
def insertMember (k : String) (v : Json) : List (String × Json) → List (String × Json)
  | [] => [(k, v)]
  | (k', v') :: rest =>
    if k = k' then (k, v) :: rest
    else if k < k' then (k, v) :: (k', v') :: rest
    else (k', v') :: insertMember k v rest

/-- The object with these members: sorted by key, the last of several equal keys kept. -/
def object (members : List (String × Json)) : Json :=
  .obj (members.foldl (fun acc m => insertMember m.1 m.2 acc) [])

/-- The member of an object with this key. -/
def get? (k : String) : Json → Option Json
  | .obj members => members.lookup k
  | _ => none

/-! ## Written form -/

/-- The lower-case hexadecimal digit of a number below sixteen. -/
def hexDigit (n : Nat) : Char :=
  if n < 10 then Char.ofNat (48 + n) else Char.ofNat (87 + n)

/-- A character inside a quoted string. -/
def escapeChar (c : Char) : List Char :=
  if c = '"' then ['\\', '"']
  else if c = '\\' then ['\\', '\\']
  else if c = '\x08' then ['\\', 'b']
  else if c = '\x0c' then ['\\', 'f']
  else if c = '\n' then ['\\', 'n']
  else if c = '\r' then ['\\', 'r']
  else if c = '\t' then ['\\', 't']
  else if c.toNat < 0x20 then
    ['\\', 'u', '0', '0', hexDigit (c.toNat / 16), hexDigit (c.toNat % 16)]
  else [c]

/-- A string between quotes. -/
def quoted (s : String) : List Char :=
  '"' :: s.toList.flatMap escapeChar ++ ['"']

/-- An integer in base ten. -/
def integerChars (z : Int) : List Char :=
  if z < 0 then '-' :: Nat.toDigits 10 z.natAbs else Nat.toDigits 10 z.natAbs

/-- The characters of decimal digits. -/
def digitChars (ds : List Nat) : List Char :=
  ds.map fun d => Char.ofNat (48 + d)

/-- A fraction. The point is written out while the value is at least `0.00001` and below `10 ^ 16`,
and at least one digit stands on both sides of it; else one digit leads and an exponent with its sign
follows. -/
def floatChars (bits : UInt64) : List Char :=
  match Decimal.Binary.ofBits? bits with
  | none => "null".toList
  | some b =>
    let sign := if b.negative then ['-'] else []
    let ⟨ds, point⟩ := b.shortest
    let n : Int := ds.length
    let body :=
      if n ≤ point ∧ point ≤ 16 then
        digitChars ds ++ List.replicate (point - n).toNat '0' ++ ['.', '0']
      else if 0 < point ∧ point ≤ 16 then
        digitChars (ds.take point.toNat) ++ '.' :: digitChars (ds.drop point.toNat)
      else if -5 < point ∧ point ≤ 0 then
        ['0', '.'] ++ List.replicate (-point).toNat '0' ++ digitChars ds
      else
        let fraction := if ds.length = 1 then [] else '.' :: digitChars (ds.drop 1)
        let power := point - 1
        let mark := if power < 0 then ['e', '-'] else ['e', '+']
        digitChars (ds.take 1) ++ fraction ++ mark ++ Nat.toDigits 10 power.natAbs
    sign ++ body

mutual

/-- The characters of a value. -/
def chars : Json → List Char
  | .null => "null".toList
  | .bool true => "true".toList
  | .bool false => "false".toList
  | .int z => integerChars z
  | .float bits => floatChars bits
  | .str s => quoted s
  | .arr [] => ['[', ']']
  | .arr (x :: xs) => '[' :: chars x ++ itemChars xs
  | .obj [] => ['\x7b', '\x7d']
  | .obj ((k, v) :: ms) => '\x7b' :: quoted k ++ ':' :: chars v ++ memberChars ms

/-- The items after the first one, and the closing bracket. -/
def itemChars : List Json → List Char
  | [] => [']']
  | x :: xs => ',' :: chars x ++ itemChars xs

/-- The members after the first one, and the closing brace. -/
def memberChars : List (String × Json) → List Char
  | [] => ['\x7d']
  | (k, v) :: ms => ',' :: quoted k ++ ':' :: chars v ++ memberChars ms

end

/-- The compact text of a value. -/
def text (j : Json) : String :=
  String.ofList j.chars

end Json

end Courier
