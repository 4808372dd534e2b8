/-
# Courier.Proofs.Json.Records -- records read back from their texts

Every field of a record has a reader of its own, which gives back what was written whatever follows it: a string, one
of several names, an integer of a range, a list of bytes, or something that may be left out.

A record is written as an object with its fields in order and read field by field into a partial record.
`Shape.Fills` says this without the text: each member is a field that is still unset, and reading its value
sets it. Where the members of an object fill the partial record, the reader of the record gives what the
filled record is finished to (`Shape.readAll_text`).

For the payload of a task this means that every pair of a source and a destination comes back as it was
(`Transfer.decode_encode`).
-/
import Courier.Proofs.Json.RoundTrip
import Courier.Task.Transfer

namespace Courier

namespace Json

open Utf8 (octets)

/-! ## Single values -/

/-- A string is read back from its text, whatever follows. -/
theorem string_chars (t : String) (rest : Bytes) : string (octets (chars (.str t)) ++ rest) = .ok (t, rest) := by
  rw [chars, octets_quoted]
  show stringBody _ = _
  rw [stringBody_quoted]

/-- One of several names is read back from its text. -/
theorem oneName_chars {α : Type} {named? : String → Option α} {name : String} {x : α} (named : named? name = some x)
    (known : List String) (rest : Bytes) :
    oneName named? known (octets (chars (.str name)) ++ rest) = .ok (x, rest) := by
  rw [chars, octets_quoted]
  show (stringBody _ >>= _) = _
  rw [stringBody_quoted]
  simp only [bind, Except.bind, named]

/-- An integer of the range is read back from its text. -/
theorem integerIn_chars {lo hi z : Int} (least : -(twoTo 63 : Nat) ≤ lo) (most : hi < (twoTo 64 : Nat)) (low : lo ≤ z)
    (high : z ≤ hi) (expected : String) {rest : Bytes} (ends : Ends rest) :
    integerIn lo hi expected (octets (chars (.int z)) ++ rest) = .ok (z, rest) := by
  have fits : -(twoTo 63 : Nat) ≤ z ∧ z < (twoTo 64 : Nat) := ⟨by omega, by omega⟩
  rw [chars]
  rcases integerChars_cases fits.1 fits.2 ends with ⟨s, text, read⟩ | ⟨b, s, text, digit, read⟩
  · rw [text]
    show (number true s >>= _) = _
    rw [read]
    exact if_pos ⟨low, high⟩
  · have minus := not_digit digit (by decide : '-'.isDigit = false)
    rw [text, integerIn, (starts_digit digit s).skipBlanks]
    simp only [minus, digit, or_true, if_true, if_false, read, bind, Except.bind]
    exact if_pos ⟨low, high⟩

theorem int64_chars {z : Int} (low : -(twoTo 63 : Nat) ≤ z) (high : z < (twoTo 63 : Nat)) {rest : Bytes}
    (ends : Ends rest) : int64 (octets (chars (.int z)) ++ rest) = .ok (z, rest) := by
  have some_ : 0 < twoTo 63 := by decide
  exact integerIn_chars (by decide) (by decide) low (by omega) _ ends

/-- A list of bytes is read back from its text. -/
theorem bytes_chars (bs : Bytes) (rest : Bytes) :
    bytes (octets (chars (.arr (bs.map fun b => .int b.toNat))) ++ rest) = .ok (bs, rest) := by
  have each : ∀ b ∈ bs, Starts (octets (chars (.int b.toNat))) ∧ ∀ rest, Ends rest →
      byte (octets (chars (.int b.toNat)) ++ rest) = (Except.ok b).map fun b => (b, rest) := by
    intro b _
    have small := b.toNat_lt
    have fits : 256 < twoTo 64 := by decide
    refine ⟨(Whole.int (by omega) (by omega)).starts, fun rest ends => ?_⟩
    rw [byte, integerIn_chars (by decide) (by decide) (by omega) (by omega) _ ends]
    show Except.ok (UInt8.ofNat (b.toNat : Int).toNat, rest) = _
    rw [Int.toNat_natCast, UInt8.ofNat_toNat]
    rfl
  have all : bs.mapM (fun b => (Except.ok b : Except Flaw UInt8)) = .ok bs :=
    List.mapM_pure.trans (congrArg Except.ok (List.map_id' bs))
  rw [chars_arr]
  show items byte (octets (innerChars (bs.map fun b => .int b.toNat)) ++ rest) = _
  rw [items_innerChars each rest, all]
  rfl

theorem optional_null {α : Type} (r : Reader α) (rest : Bytes) :
    optional r (octets (chars .null) ++ rest) = .ok (none, rest) := rfl

/-- What may be left out is read as what it is, unless it is `null`. -/
theorem optional_chars {α : Type} (r : Reader α) {j : Json} (h : Whole j) (other : j ≠ .null) (rest : Bytes) :
    optional r (octets j.chars ++ rest) = (r (octets j.chars ++ rest)).map fun (x, s) => (some x, s) := by
  obtain ⟨b, more, text, -, -, null⟩ := h.head
  rw [optional, (h.starts.append rest).skipBlanks, text, List.cons_append]
  exact if_neg fun n => other (null n)

/-! ## Records -/

namespace Shape

variable {σ α : Type} {shape : Shape σ α}

/-- The members, one after the other, set the fields of these names, which were unset before, and turn the first partial
record into the second. A value is read from its text whatever follows, as long as it does not continue a number. -/
inductive Fills (shape : Shape σ α) : σ → List (String × Json) → σ → Prop
  | nil (part : σ) : Fills shape part [] part
  | cons {part part' filled : σ} {k : String} {v : Json} {ms : List (String × Json)} {field : Field σ}
      (found : (shape.fields.find? fun f => f.name == k) = some field) (unset : field.isSet part = false)
      (read : ∀ rest, Ends rest → field.read part (octets v.chars ++ rest) = .ok (part', rest))
      (others : Fills shape part' ms filled) : Fills shape part ((k, v) :: ms) filled

/-- A member that one reader reads, whose value is then put into the partial record. -/
theorem Fills.set {β : Type} {part filled : σ} {k : String} {v : Json} {ms : List (String × Json)} {field : Field σ}
    {reader : Reader β} {x : β} (put : σ → β → σ)
    (found : (shape.fields.find? fun f => f.name == k) = some field) (unset : field.isSet part = false)
    (reads : ∀ s, field.read part s = (reader s).map fun (x, s) => (put part x, s))
    (value : ∀ rest, Ends rest → reader (octets v.chars ++ rest) = .ok (x, rest))
    (others : shape.Fills (put part x) ms filled) : shape.Fills part ((k, v) :: ms) filled := by
  refine .cons found unset (fun rest ends => ?_) others
  rw [reads, value rest ends]
  rfl

/-- One member: once its key is found, its value is read and the next key is looked for. -/
theorem fromMembers_cons {part part' : σ} {k : String} {v : Json} {field : Field σ} {first : Bool} {s rest : Bytes}
    (found : (shape.fields.find? fun f => f.name == k) = some field) (unset : field.isSet part = false)
    (read : field.read part (octets v.chars ++ rest) = .ok (part', rest))
    (next : nextKey first s = .ok (some k, octets [':'] ++ (octets v.chars ++ rest))) (fuel : Nat) :
    shape.fromMembers (fuel + 1) first part s = shape.fromMembers fuel false part' rest := by
  rw [fromMembers, next]
  simp only [bind, Except.bind, found, unset]
  show (field.read part (octets v.chars ++ rest)).bind _ = _
  rw [read]
  rfl

/-- The members behind the first one are read up to the closing brace. -/
theorem Fills.fromMembers {part filled : σ} {ms : List (String × Json)} (h : shape.Fills part ms filled)
    (rest : Bytes) {fuel : Nat} (enough : ms.length < fuel) :
    shape.fromMembers fuel false part (octets (memberChars ms) ++ rest) = .ok (filled, octets ['\x7d'] ++ rest) := by
  induction h generalizing fuel with
  | nil part =>
    obtain ⟨fuel, rfl⟩ : ∃ k, fuel = k + 1 := ⟨fuel - 1, by omega⟩
    rw [memberChars, Shape.fromMembers, nextKey_end]
    rfl
  | @cons part part' filled k v ms field found unset read others ih =>
    obtain ⟨fuel, rfl⟩ : ∃ k, fuel = k + 1 := ⟨fuel - 1, by omega⟩
    have next := (nextKey_quoted k (octets [':'] ++ (octets v.chars ++ (octets (memberChars ms) ++ rest)))).2
    rw [octets_memberChars, fromMembers_cons found unset (read _ (ends_memberChars ms rest)) next]
    exact ih (Nat.lt_of_succ_lt_succ enough)

theorem Fills.fromMembers_first {part filled : σ} {ms : List (String × Json)} (h : shape.Fills part ms filled)
    (rest : Bytes) {fuel : Nat} (enough : ms.length < fuel) :
    shape.fromMembers fuel true part (octets (innerMemberChars ms) ++ rest) =
      .ok (filled, octets ['\x7d'] ++ rest) := by
  obtain ⟨fuel, rfl⟩ : ∃ k, fuel = k + 1 := ⟨fuel - 1, by omega⟩
  cases h with
  | nil part =>
    rw [innerMemberChars, Shape.fromMembers, nextKey_end]
    rfl
  | @cons part part' filled k v ms field found unset read others =>
    have inner : octets (innerMemberChars ((k, v) :: ms)) ++ rest =
        octets (quoted k) ++ (octets [':'] ++ (octets v.chars ++ (octets (memberChars ms) ++ rest))) := by
      simp only [innerMemberChars, Utf8.octets_cons, Utf8.octets_append, Utf8.octets_nil, List.append_assoc,
        List.append_nil]
    have next := (nextKey_quoted k (octets [':'] ++ (octets v.chars ++ (octets (memberChars ms) ++ rest)))).1
    rw [inner, fromMembers_cons found unset (read _ (ends_memberChars ms rest)) next]
    exact others.fromMembers rest (Nat.lt_of_succ_lt_succ enough)

theorem length_lt_innerMemberChars (ms : List (String × Json)) : ms.length < (innerMemberChars ms).length := by
  cases ms with
  | nil => exact Nat.zero_lt_one
  | cons m ms =>
    have others := length_lt_memberChars ms
    simp only [innerMemberChars, List.length_append, List.length_cons]
    omega

/-- An object whose members fill a record is read as this record. -/
theorem Fills.reader {filled : σ} {ms : List (String × Json)} {x : α} (h : shape.Fills shape.start ms filled)
    (finished : shape.finish filled = .ok x) (rest : Bytes) :
    shape.reader (octets (chars (.obj ms)) ++ rest) = .ok (x, rest) := by
  have enough : ms.length < (octets (innerMemberChars ms) ++ rest).length + 1 := by
    have few := length_lt_innerMemberChars ms
    have long := Utf8.length_le_octets (innerMemberChars ms)
    rw [List.length_append]
    omega
  rw [chars_obj]
  show (shape.fromMembers ((octets (innerMemberChars ms) ++ rest).length + 1) true shape.start
    (octets (innerMemberChars ms) ++ rest) >>= _) = _
  rw [h.fromMembers_first rest enough]
  show (shape.finish filled >>= _) = _
  rw [finished]
  rfl

/-- The text of such an object, and nothing else in it. -/
theorem Fills.readAll_text {filled : σ} {ms : List (String × Json)} {x : α} (h : shape.Fills shape.start ms filled)
    (finished : shape.finish filled = .ok x) :
    readAll shape.reader (Utf8.encode (text (.obj ms))) = .ok x := by
  have read := h.reader finished []
  rw [List.append_nil] at read
  rw [readAll, text, Utf8.encode_ofList, read]
  rfl

end Shape

end Json

namespace Transfer

theorem fills (t : Transfer) :
    shape.Fills {} [("source", .str t.source), ("destination", .str t.destination)]
      ⟨some t.source, some t.destination⟩ := by
  refine .set (fun p x => { p with source := some x }) rfl rfl (fun _ => rfl)
    (fun rest _ => Json.string_chars t.source rest) ?_
  refine .set (fun p x => { p with destination := some x }) rfl rfl (fun _ => rfl)
    (fun rest _ => Json.string_chars t.destination rest) ?_
  exact .nil _

/-- Every source and every destination come back from the payload that they are written to. -/
theorem decode_encode (t : Transfer) : decode t.encode = .ok t := by
  rw [decode, read, encode, toJson, t.fills.readAll_text rfl]
  rfl

theorem encode_injective : Function.Injective encode := by
  intro t u same
  have read : decode t.encode = decode u.encode := congrArg decode same
  rw [decode_encode, decode_encode] at read
  exact Except.ok.inj read

end Transfer

end Courier
