/-
# Courier.Text.Utf8 -- texts as bytes

Payloads, stored details and settings files arrive as bytes, and most of them hold text. This module
is the one place where the two meet: `encode` writes the bytes of a text, `decode` reads them back
and refuses every ill-formed sequence (overlong forms, surrogates, values past the last scalar, cut
sequences). A byte string is a plain list, so that readers can be written by recursion on it.
-/

namespace Courier

/-- A byte string. -/
abbrev Bytes := List UInt8

namespace Utf8

/-! ## Writing -/

/-- The bytes of one character: one to four of them, the first telling how many follow. -/
def encodeChar (c : Char) : Bytes :=
  let n := c.toNat
  if n < 0x80 then [UInt8.ofNat n]
  else if n < 0x800 then [UInt8.ofNat (0xC0 + n / 64), UInt8.ofNat (0x80 + n % 64)]
  else if n < 0x10000 then
    [UInt8.ofNat (0xE0 + n / 4096), UInt8.ofNat (0x80 + n / 64 % 64), UInt8.ofNat (0x80 + n % 64)]
  else
    [UInt8.ofNat (0xF0 + n / 262144), UInt8.ofNat (0x80 + n / 4096 % 64),
      UInt8.ofNat (0x80 + n / 64 % 64), UInt8.ofNat (0x80 + n % 64)]

/-- The bytes of a text. -/
def encode (s : String) : Bytes :=
  s.toList.flatMap encodeChar

/-! ## Reading -/

/-- The payload of a continuation byte, if it is one. -/
def continuation? (b : UInt8) : Option Nat :=
  if 0x80 ≤ b.toNat ∧ b.toNat < 0xC0 then some (b.toNat - 0x80) else none

/-- The first character of a byte string together with the bytes after it. A leading byte fixes the
length; the value it announces must need that length and must be a scalar value. -/
def decodeHead? : Bytes → Option (Char × Bytes)
  | [] => none
  | a :: rest =>
    if a.toNat < 0x80 then some (Char.ofNat a.toNat, rest)
    else if 0xC2 ≤ a.toNat ∧ a.toNat < 0xE0 then
      match rest with
      | b :: rest => do
        let x ← continuation? b
        some (Char.ofNat ((a.toNat - 0xC0) * 64 + x), rest)
      | _ => none
    else if 0xE0 ≤ a.toNat ∧ a.toNat < 0xF0 then
      match rest with
      | b :: c :: rest => do
        let x ← continuation? b
        let y ← continuation? c
        let n := (a.toNat - 0xE0) * 4096 + x * 64 + y
        if n < 0x800 ∨ (0xD800 ≤ n ∧ n < 0xE000) then none else some (Char.ofNat n, rest)
      | _ => none
    else if 0xF0 ≤ a.toNat ∧ a.toNat < 0xF5 then
      match rest with
      | b :: c :: d :: rest => do
        let x ← continuation? b
        let y ← continuation? c
        let z ← continuation? d
        let n := (a.toNat - 0xF0) * 262144 + x * 4096 + y * 64 + z
        if n < 0x10000 ∨ 0x110000 ≤ n then none else some (Char.ofNat n, rest)
      | _ => none
    else none

/-- Reads characters until the bytes are used up; `fuel` bounds their number. -/
def decodeLoop : Nat → Bytes → Option (List Char)
  | _, [] => some []
  | 0, _ :: _ => none
  | fuel + 1, bytes => do
    let (c, rest) ← decodeHead? bytes
    let cs ← decodeLoop fuel rest
    some (c :: cs)

/-- The text that a byte string holds, if it is well formed. Every character takes at least one
byte, so the number of bytes is fuel enough. -/
def decode? (bytes : Bytes) : Option String :=
  (decodeLoop bytes.length bytes).map String.ofList

/-! ## Reading what was written -/

theorem toNat_ofNat {k : Nat} (h : k < 256) : (UInt8.ofNat k).toNat = k := by
  simp [Nat.mod_eq_of_lt h]

/-- A byte that continues a character gives back its six bits. -/
theorem continuation?_ofNat (k : Nat) : continuation? (UInt8.ofNat (128 + k % 64)) = some (k % 64) := by
  have lt : k % 64 < 64 := Nat.mod_lt k (by decide)
  unfold continuation?
  rw [toNat_ofNat (by omega), if_pos (by omega), Nat.add_sub_cancel_left]

section Heads

variable {a b c d : UInt8} {w x y z : Nat}

theorem decodeHead?_two (first : a.toNat = 192 + w) (least : 2 ≤ w) (most : w < 32)
    (second : continuation? b = some x) (rest : Bytes) :
    decodeHead? (a :: b :: rest) = some (Char.ofNat (w * 64 + x), rest) := by
  simp only [decodeHead?, first]
  rw [if_neg (by omega), if_pos (by omega), second, Nat.add_sub_cancel_left]
  rfl

theorem decodeHead?_three (first : a.toNat = 224 + w) (most : w < 16)
    (second : continuation? b = some x) (third : continuation? c = some y)
    (scalar : ¬(w * 4096 + x * 64 + y < 0x800 ∨
      (0xD800 ≤ w * 4096 + x * 64 + y ∧ w * 4096 + x * 64 + y < 0xE000))) (rest : Bytes) :
    decodeHead? (a :: b :: c :: rest) = some (Char.ofNat (w * 4096 + x * 64 + y), rest) := by
  simp only [decodeHead?, first]
  rw [if_neg (by omega), if_neg (by omega), if_pos (by omega), second, third, Nat.add_sub_cancel_left]
  -- Left to a defeq check, the factors would be counted down.
  rw [Option.bind_eq_bind, Option.bind_some, Option.bind_some]
  exact if_neg scalar

theorem decodeHead?_four (first : a.toNat = 240 + w) (most : w < 5)
    (second : continuation? b = some x) (third : continuation? c = some y)
    (fourth : continuation? d = some z)
    (scalar : ¬(w * 262144 + x * 4096 + y * 64 + z < 0x10000 ∨
      0x110000 ≤ w * 262144 + x * 4096 + y * 64 + z)) (rest : Bytes) :
    decodeHead? (a :: b :: c :: d :: rest) =
      some (Char.ofNat (w * 262144 + x * 4096 + y * 64 + z), rest) := by
  simp only [decodeHead?, first]
  rw [if_neg (by omega), if_neg (by omega), if_neg (by omega), if_pos (by omega), second, third, fourth,
    Nat.add_sub_cancel_left]
  rw [Option.bind_eq_bind, Option.bind_some, Option.bind_some, Option.bind_some]
  exact if_neg scalar

end Heads

/-- Reading a written character returns it, whatever follows. -/
theorem decodeHead?_encodeChar (c : Char) (rest : Bytes) :
    decodeHead? (encodeChar c ++ rest) = some (c, rest) := by
  have valid : c.toNat < 0xD800 ∨ (0xDFFF < c.toNat ∧ c.toNat < 0x110000) := c.valid
  have back : Char.ofNat c.toNat = c := Char.ofNat_toNat c
  unfold encodeChar
  generalize c.toNat = n at valid back
  simp only
  split
  · rename_i one
    have first : (UInt8.ofNat n).toNat = n := toNat_ofNat (by omega)
    simp only [List.cons_append, List.nil_append, decodeHead?, first]
    rw [if_pos one, back]
  · split
    · have sum : n / 64 * 64 + n % 64 = n := by omega
      have head := decodeHead?_two (toNat_ofNat (k := 192 + n / 64) (by omega)) (by omega) (by omega)
        (continuation?_ofNat n) rest
      rwa [sum, back] at head
    · split
      · have sum : n / 4096 * 4096 + n / 64 % 64 * 64 + n % 64 = n := by omega
        have head := decodeHead?_three (toNat_ofNat (k := 224 + n / 4096) (by omega)) (by omega)
          (continuation?_ofNat (n / 64)) (continuation?_ofNat n) (by omega) rest
        rwa [sum, back] at head
      · have sum : n / 262144 * 262144 + n / 4096 % 64 * 4096 + n / 64 % 64 * 64 + n % 64 = n := by omega
        have head := decodeHead?_four (toNat_ofNat (k := 240 + n / 262144) (by omega)) (by omega)
          (continuation?_ofNat (n / 4096)) (continuation?_ofNat (n / 64)) (continuation?_ofNat n)
          (by omega) rest
        rwa [sum, back] at head

end Utf8

end Courier
