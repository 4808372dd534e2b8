/-
# Courier.Proofs.Json.Lexical -- strings and integers read back

A text is written character by character and read byte by byte. Here the two meet for the parts of a JSON text that
have no parts themselves: a quoted string gives back the string (`stringBody_quoted`), the digits of an integer give
back the integer (`number_toDigits`), whatever follows them.
-/
import Courier.Json.Reader
import Mathlib.Data.List.Basic
import Mathlib.Data.Nat.Digits.Defs

namespace Courier

/-! ## Characters as bytes -/

namespace Utf8

/-- The bytes of some characters. -/
def octets (cs : List Char) : Bytes := cs.flatMap encodeChar

@[simp] theorem octets_nil : octets [] = [] := rfl

@[simp] theorem octets_cons (c : Char) (cs : List Char) : octets (c :: cs) = encodeChar c ++ octets cs := rfl

@[simp] theorem octets_append (cs ds : List Char) : octets (cs ++ ds) = octets cs ++ octets ds := List.flatMap_append

theorem encode_ofList (cs : List Char) : encode (String.ofList cs) = octets cs := by
  rw [encode, String.toList_ofList, octets]

theorem encodeChar_of_lt {c : Char} (h : c.toNat < 128) : encodeChar c = [UInt8.ofNat c.toNat] := if_pos h

theorem encodeChar_ne_nil (c : Char) : encodeChar c ≠ [] := by
  unfold encodeChar
  simp only
  split
  · exact List.cons_ne_nil _ _
  · split
    · exact List.cons_ne_nil _ _
    · split <;> exact List.cons_ne_nil _ _

/-- All bytes of a character past the ASCII range are past it too. -/
theorem le_of_mem_encodeChar {c : Char} (h : 128 ≤ c.toNat) {b : UInt8} (hb : b ∈ encodeChar c) : 128 ≤ b.toNat := by
  have valid : c.toNat < 0xD800 ∨ (0xDFFF < c.toNat ∧ c.toNat < 0x110000) := c.valid
  unfold encodeChar at hb
  generalize c.toNat = n at h valid hb
  simp only at hb
  rw [if_neg (by omega)] at hb
  have large : ∀ k, 128 ≤ k → k < 256 → 128 ≤ (UInt8.ofNat k).toNat := fun k low high => by
    rwa [toNat_ofNat high]
  split at hb
  · simp only [List.mem_cons, List.not_mem_nil, or_false] at hb
    rcases hb with rfl | rfl <;> exact large _ (by omega) (by omega)
  · split at hb <;>
    · simp only [List.mem_cons, List.not_mem_nil, or_false] at hb
      rcases hb with rfl | rfl | rfl | rfl <;> exact large _ (by omega) (by omega)

theorem decodeLoop_octets (cs : List Char) {fuel : Nat} (h : cs.length ≤ fuel) :
    decodeLoop fuel (octets cs) = some cs := by
  induction cs generalizing fuel with
  | nil => cases fuel <;> rfl
  | cons c cs ih =>
    obtain ⟨fuel, rfl⟩ : ∃ k, fuel = k + 1 := ⟨fuel - 1, by rw [List.length_cons] at h; omega⟩
    have head := decodeHead?_encodeChar c (octets cs)
    obtain ⟨b, more, first⟩ := List.exists_cons_of_ne_nil (encodeChar_ne_nil c)
    rw [octets_cons]
    rw [first, List.cons_append] at head ⊢
    rw [decodeLoop, head]
    · show (decodeLoop fuel (octets cs)).bind _ = _
      rw [ih (Nat.le_of_succ_le_succ h)]
      rfl
    · exact List.cons_ne_nil _ _

theorem length_le_octets (cs : List Char) : cs.length ≤ (octets cs).length := by
  induction cs with
  | nil => exact Nat.le_refl 0
  | cons c cs ih =>
    have := List.length_pos_iff.mpr (encodeChar_ne_nil c)
    rw [octets_cons, List.length_append, List.length_cons]
    omega

/-- Reading what was written returns it. -/
theorem decode?_octets (cs : List Char) : decode? (octets cs) = some (String.ofList cs) := by
  rw [decode?, decodeLoop_octets cs (length_le_octets cs), Option.map_some]

end Utf8

namespace Json

open Utf8 (octets)

theorem toNat_ascii (b : UInt8) : (ascii b).toNat = b.toNat := by
  have small := b.toNat_lt
  have valid : Nat.isValidChar b.toNat := Or.inl (by omega)
  rw [ascii, Char.ofNat, dif_pos valid]
  rfl

theorem ascii_eq_iff {b : UInt8} {c : Char} : ascii b = c ↔ b.toNat = c.toNat := by
  rw [← toNat_ascii]
  exact ⟨congrArg Char.toNat, fun h => by rw [← Char.ofNat_toNat (ascii b), h, Char.ofNat_toNat]⟩

/-! ## Strings -/

/-- Bytes that stand for themselves are taken one by one. -/
theorem stringBytes_plain {bs : Bytes} (plain : ∀ b ∈ bs, ascii b ≠ '"' ∧ ascii b ≠ '\\' ∧ ¬b < 0x20) (fuel : Nat)
    (done rest : Bytes) :
    stringBytes (fuel + bs.length) done (bs ++ rest) = stringBytes fuel (bs.reverse ++ done) rest := by
  induction bs generalizing done with
  | nil => rfl
  | cons b bs ih =>
    obtain ⟨quote, backslash, control⟩ := plain b List.mem_cons_self
    rw [List.length_cons, ← Nat.add_assoc, List.cons_append, stringBytes, if_neg quote, if_neg backslash,
      if_neg control, ih fun b hb => plain b (List.mem_cons_of_mem _ hb)]
    simp

/-- An escape is taken in one round. -/
theorem stringBytes_escape {s rest : Bytes} {c : Char} (back : escape s = .ok (c, rest)) (fuel : Nat) (done : Bytes) :
    stringBytes (fuel + 1) done (octets ['\\'] ++ s) = stringBytes fuel ((Utf8.encodeChar c).reverse ++ done) rest := by
  show stringBytes (fuel + 1) done (0x5c :: s) = _
  rw [stringBytes, if_neg (by decide), if_pos (by decide), back]
  rfl

theorem hexValue?_hexDigit : ∀ n < 16, Utf8.encodeChar (hexDigit n) = [UInt8.ofNat (hexDigit n).toNat] ∧
    hexValue? (UInt8.ofNat (hexDigit n).toNat) = some n := by
  decide

/-- A control character gives back its number from two digits. -/
theorem unicodeEscape_control {c : Char} (control : c.toNat < 0x20) (rest : Bytes) :
    unicodeEscape (octets ['0', '0', hexDigit (c.toNat / 16), hexDigit (c.toNat % 16)] ++ rest) = .ok (c, rest) := by
  obtain ⟨high, highValue⟩ := hexValue?_hexDigit (c.toNat / 16) (by omega)
  obtain ⟨low, lowValue⟩ := hexValue?_hexDigit (c.toNat % 16) (by omega)
  have quad : hexQuad (octets ['0', '0', hexDigit (c.toNat / 16), hexDigit (c.toNat % 16)] ++ rest) =
      .ok (c.toNat, rest) := by
    have zero : hexValue? (UInt8.ofNat '0'.toNat) = some 0 := by decide
    rw [Utf8.octets_cons, Utf8.octets_cons, Utf8.octets_cons, Utf8.octets_cons, Utf8.octets_nil, high, low,
      Utf8.encodeChar_of_lt (by decide : '0'.toNat < 128)]
    simp only [List.cons_append, List.nil_append, hexQuad, zero, highValue, lowValue]
    congr 2
    omega
  rw [unicodeEscape, quad]
  show (if 0xDC00 ≤ c.toNat ∧ c.toNat ≤ 0xDFFF then _ else _) = _
  rw [if_neg (by omega), if_pos (by omega), Char.ofNat_toNat]

/-- A character inside a string is an escape that gives it back, or it stands for itself. -/
theorem escapeChar_cases (c : Char) :
    (∃ esc, escapeChar c = '\\' :: esc ∧ ∀ rest, escape (octets esc ++ rest) = .ok (c, rest)) ∨
      escapeChar c = [c] ∧ c ≠ '"' ∧ c ≠ '\\' ∧ 0x20 ≤ c.toNat := by
  unfold escapeChar
  -- The seven characters that have a letter of their own.
  iterate 7
    split
    · subst c
      exact Or.inl ⟨_, rfl, fun _ => rfl⟩
  split
  · rename_i control
    exact Or.inl ⟨_, rfl, fun rest => unicodeEscape_control control rest⟩
  · exact Or.inr ⟨rfl, by assumption, by assumption, by omega⟩

/-- The bytes of a character that stands for itself do so too. -/
theorem plain_of_char {c : Char} (quote : c ≠ '"') (backslash : c ≠ '\\') (control : 0x20 ≤ c.toNat) :
    ∀ b ∈ Utf8.encodeChar c, ascii b ≠ '"' ∧ ascii b ≠ '\\' ∧ ¬b < 0x20 := by
  intro b hb
  have number : b.toNat = c.toNat ∨ 128 ≤ b.toNat := by
    by_cases small : c.toNat < 128
    · rw [Utf8.encodeChar_of_lt small, List.mem_singleton] at hb
      exact Or.inl (hb ▸ Utf8.toNat_ofNat (by omega))
    · exact Or.inr (Utf8.le_of_mem_encodeChar (by omega) hb)
  have other : ∀ d : Char, d.toNat < 128 → c ≠ d → ascii b ≠ d := by
    intro d small differs same
    rw [ascii_eq_iff] at same
    refine differs ?_
    rw [← Char.ofNat_toNat c, ← Char.ofNat_toNat d]
    congr 1
    omega
  refine ⟨other _ (by decide) quote, other _ (by decide) backslash, ?_⟩
  rw [UInt8.lt_iff_toNat_lt]
  have : (0x20 : UInt8).toNat = 0x20 := rfl
  omega

theorem stringBytes_escaped (cs : List Char) {fuel : Nat} (enough : (octets (cs.flatMap escapeChar)).length < fuel)
    (done rest : Bytes) :
    stringBytes fuel done (octets (cs.flatMap escapeChar) ++ octets ['"'] ++ rest) =
      .ok (done.reverse ++ octets cs, rest) := by
  -- By characters, while the fuel goes by bytes: an escape costs one round, a plain character one for each byte.
  induction cs generalizing fuel done with
  | nil =>
    obtain ⟨fuel, rfl⟩ : ∃ k, fuel = k + 1 := ⟨fuel - 1, by omega⟩
    rw [Utf8.octets_nil, List.append_nil]
    rfl
  | cons c cs ih =>
    rw [List.flatMap_cons, Utf8.octets_append, List.length_append] at enough
    rw [List.flatMap_cons, Utf8.octets_append, List.append_assoc, List.append_assoc]
    rcases escapeChar_cases c with ⟨esc, escaped, back⟩ | ⟨itself, quote, backslash, control⟩
    · have mark : octets (escapeChar c) = octets ['\\'] ++ octets esc := by rw [escaped]; rfl
      obtain ⟨fuel, rfl⟩ : ∃ k, fuel = k + 1 := ⟨fuel - 1, by omega⟩
      have one : (octets ['\\']).length = 1 := by decide
      rw [mark, List.length_append, one] at enough
      rw [mark, List.append_assoc, stringBytes_escape (back _), ← List.append_assoc, ih (by omega),
        List.reverse_append, List.reverse_reverse, List.append_assoc, Utf8.octets_cons]
    · have alone : octets (escapeChar c) = Utf8.encodeChar c := by rw [itself]; exact List.append_nil _
      rw [alone] at enough
      obtain ⟨more, rfl⟩ : ∃ k, fuel = k + (Utf8.encodeChar c).length := ⟨fuel - (Utf8.encodeChar c).length, by omega⟩
      rw [alone, stringBytes_plain (plain_of_char quote backslash control), ← List.append_assoc, ih (by omega),
        List.reverse_append, List.reverse_reverse, List.append_assoc, Utf8.octets_cons]

/-- A quoted string, its opening quote taken, gives back the string. -/
theorem stringBody_quoted (t : String) (rest : Bytes) :
    stringBody (octets (t.toList.flatMap escapeChar) ++ octets ['"'] ++ rest) = .ok (t, rest) := by
  rw [stringBody, stringBytes_escaped _ (by simp only [List.length_append]; omega)]
  simp only [bind, Except.bind, List.reverse_nil, List.nil_append, Utf8.decode?_octets, String.ofList_toList]

/-! ## Integers -/

/-- What follows a number does not continue it. -/
def Ends (s : Bytes) : Prop :=
  ∀ b ∈ s.head?, isDigit b = false ∧ ascii b ≠ '.' ∧ ascii b ≠ 'e' ∧ ascii b ≠ 'E'

theorem ends_nil : Ends [] := nofun

theorem isDigit_ascii (b : UInt8) : (ascii b).isDigit = isDigit b := by
  have number := toNat_ascii b
  rw [Bool.eq_iff_iff, Char.isDigit, isDigit]
  simp only [Bool.and_eq_true, decide_eq_true_eq, UInt8.le_iff_toNat_le, ge_iff_le, UInt32.le_iff_toNat_le]
  rw [← number]
  rfl

theorem byte_of_isDigit {c : Char} (h : c.isDigit = true) :
    Utf8.encodeChar c = [UInt8.ofNat c.toNat] ∧ isDigit (UInt8.ofNat c.toNat) = true ∧
      digitValue (UInt8.ofNat c.toNat) = c.toNat - '0'.toNat ∧ ascii (UInt8.ofNat c.toNat) = c := by
  have range : 48 ≤ c.toNat ∧ c.toNat ≤ 57 := by
    simpa [Char.isDigit, UInt32.le_iff_toNat_le] using h
  have number : (UInt8.ofNat c.toNat).toNat = c.toNat := Utf8.toNat_ofNat (by omega)
  refine ⟨Utf8.encodeChar_of_lt (by omega), ?_, ?_, ascii_eq_iff.mpr number⟩
  · rw [isDigit, Bool.and_eq_true, decide_eq_true_eq, decide_eq_true_eq, UInt8.le_iff_toNat_le,
      UInt8.le_iff_toNat_le, number]
    exact range
  · rw [digitValue, number]
    rfl

theorem le_ofDigitChars (ds : List Char) (m : Nat) : m ≤ Nat.ofDigitChars 10 ds m := by
  induction ds generalizing m with
  | nil => exact Nat.le_refl m
  | cons d ds ih =>
    rw [Nat.ofDigitChars_cons]
    exact Nat.le_trans (by omega) (ih _)

/-- Digits are taken as far as they go, if the number they make stays in range. -/
theorem takeDigits_digits {ds : List Char} (digits : ∀ c ∈ ds, c.isDigit = true) {m : Nat}
    (fits : Nat.ofDigitChars 10 ds m ≤ maxInteger) {rest : Bytes} (ends : Ends rest) :
    takeDigits m (octets ds ++ rest) = (Nat.ofDigitChars 10 ds m, 0, rest) := by
  induction ds generalizing m with
  | nil =>
    cases rest with
    | nil => rfl
    | cons b rest =>
      have stops := (ends b rfl).1
      show takeDigits m (b :: rest) = _
      rw [takeDigits, if_neg (by rw [stops]; exact Bool.false_ne_true)]
      rfl
  | cons d ds ih =>
    obtain ⟨byte, isDigit, value, -⟩ := byte_of_isDigit (digits d List.mem_cons_self)
    rw [Nat.ofDigitChars_cons, Nat.mul_comm] at fits
    -- What has been read so far is at most the whole number, so no digit is dropped.
    have soFar : m * 10 + (d.toNat - '0'.toNat) ≤ maxInteger := Nat.le_trans (le_ofDigitChars ds _) fits
    rw [Utf8.octets_cons, byte, List.append_assoc, List.singleton_append, takeDigits, if_pos isDigit, value,
      if_pos soFar, ih (fun c hc => digits c (List.mem_cons_of_mem _ hc)) fits, Nat.ofDigitChars_cons, Nat.mul_comm]

/-- The digits of a number start with a zero only if it is zero. -/
theorem head?_toDigits {n : Nat} (some_ : n ≠ 0) : (Nat.toDigits 10 n).head? ≠ some '0' := by
  induction n using Nat.strongRecOn with
  | ind n ih =>
    rw [Nat.toDigits_eq_if (by decide)]
    split
    · rename_i small
      have : ∀ d < 10, d ≠ 0 → [Nat.digitChar d].head? ≠ some '0' := by decide
      exact this n small some_
    · rw [List.head?_append_of_ne_nil _ Nat.toDigits_ne_nil]
      exact ih (n / 10) (by omega) (by omega)

theorem isDigit_toDigits (n : Nat) : ∀ c ∈ Nat.toDigits 10 n, c.isDigit = true :=
  fun _ hc => Nat.isDigit_of_mem_toDigits (by decide) (by decide) hc

theorem numberTail_ends {rest : Bytes} (ends : Ends rest) (negative : Bool) (m : Nat) :
    numberTail negative m 0 rest = numberTail.whole negative m 0 rest := by
  cases rest with
  | nil => rfl
  | cons b rest =>
    obtain ⟨-, point, small, capital⟩ := ends b rfl
    simp only [numberTail, point, small, capital, or_self, if_false]

theorem number_zero {rest : Bytes} (ends : Ends rest) (negative : Bool) :
    number negative (octets ['0'] ++ rest) = numberTail negative 0 0 rest := by
  show number negative (0x30 :: rest) = _
  unfold number
  simp only [if_pos (by decide : ascii 0x30 = '0')]
  cases rest with
  | nil => rfl
  | cons b rest => simp only [(ends b rfl).1, Bool.false_eq_true, if_false]

theorem number_digit {b : UInt8} (nonzero : ascii b ≠ '0') (digit : isDigit b = true) (negative : Bool) (s : Bytes) :
    number negative (b :: s) =
      numberTail negative (takeDigits (digitValue b) s).1 (takeDigits (digitValue b) s).2.1
        (takeDigits (digitValue b) s).2.2 := by
  unfold number
  simp only [if_neg nonzero, if_pos digit]

/-- The digits of a number give it back. -/
theorem number_toDigits {n : Nat} (fits : n ≤ maxInteger) {rest : Bytes} (ends : Ends rest) (negative : Bool) :
    number negative (octets (Nat.toDigits 10 n) ++ rest) = numberTail.whole negative n 0 rest := by
  rw [← numberTail_ends ends]
  by_cases zero : n = 0
  · -- Only here does a zero lead, and nothing but the end of the number may follow it.
    rw [zero]
    exact number_zero ends negative
  have digits := isDigit_toDigits n
  have first := head?_toDigits zero
  have back : Nat.ofDigitChars 10 (Nat.toDigits 10 n) 0 = n := Nat.ofDigitChars_toDigits (by decide) (by decide)
  cases shape : Nat.toDigits 10 n with
  | nil => exact absurd shape Nat.toDigits_ne_nil
  | cons c cs =>
    rw [shape] at digits first back
    obtain ⟨byte, digit, value, same⟩ := byte_of_isDigit (digits c List.mem_cons_self)
    have nonzero : ascii (UInt8.ofNat c.toNat) ≠ '0' := fun zero => first (by rw [← same, zero]; rfl)
    rw [Nat.ofDigitChars_cons, Nat.mul_zero, Nat.zero_add] at back
    rw [Utf8.octets_cons, byte, List.append_assoc, List.singleton_append, number_digit nonzero digit, value,
      takeDigits_digits (fun d hd => digits d (List.mem_cons_of_mem _ hd)) (back.symm ▸ fits) ends, back]

/-- The text of an integer is a minus sign with digits behind it, or digits alone; both give the integer back. -/
theorem integerChars_cases {z : Int} (low : -(twoTo 63 : Nat) ≤ z) (high : z < (twoTo 64 : Nat)) {rest : Bytes}
    (ends : Ends rest) :
    (∃ s, octets (integerChars z) ++ rest = 0x2d :: s ∧ number true s = .ok (.int z, rest)) ∨
      ∃ b s, octets (integerChars z) ++ rest = b :: s ∧ isDigit b = true ∧
        number false (b :: s) = .ok (.int z, rest) := by
  have half : twoTo 63 < maxInteger := by decide
  have whole : maxInteger = twoTo 64 - 1 := rfl
  have fits : z.natAbs ≤ maxInteger := by omega
  rw [integerChars]
  split
  · refine Or.inl ⟨octets (Nat.toDigits 10 z.natAbs) ++ rest, rfl, ?_⟩
    rw [number_toDigits fits ends, numberTail.whole, if_neg (by decide), if_neg (by decide), if_neg (by omega)]
    congr 3
    omega
  · refine Or.inr ?_
    have read := number_toDigits fits ends false
    cases shape : Nat.toDigits 10 z.natAbs with
    | nil => exact absurd shape Nat.toDigits_ne_nil
    | cons c cs =>
      obtain ⟨byte, digit, -, -⟩ := byte_of_isDigit (isDigit_toDigits _ c (shape ▸ List.mem_cons_self))
      rw [shape, Utf8.octets_cons, byte, List.append_assoc, List.singleton_append] at read
      rw [Utf8.octets_cons, byte, List.append_assoc, List.singleton_append]
      refine ⟨_, _, rfl, digit, ?_⟩
      rw [read]
      show Except.ok (Number.int (z.natAbs : Int), rest) = _
      congr 3
      omega

end Json

end Courier
