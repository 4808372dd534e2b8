/-
# Courier.Proofs.Json.RoundTrip -- values read back from their texts

The text of a value is read with one reader inside the other, up to a number of levels. A value without fractions
comes back as it was if it does not nest deeper than that, and else it is refused as too deep (`value_chars`); so the
text of a value gives the value back if and only if the depth of the value is at most `maxDepth` (`parse_text`).
-/
import Courier.Proofs.Json.Lexical

namespace Courier.Json

open Utf8 (octets)

/-! ## Values without fractions -/

mutual

/-- How many lists and objects are open at the innermost place of a value. -/
def depth : Json → Nat
  | .arr xs => itemsDepth xs + 1
  | .obj ms => membersDepth ms + 1
  | _ => 0

def itemsDepth : List Json → Nat
  | [] => 0
  | x :: xs => max (depth x) (itemsDepth xs)

def membersDepth : List (String × Json) → Nat
  | [] => 0
  | (_, v) :: ms => max (depth v) (membersDepth ms)

end

/-- A value without fractions: its integers have sixty-four bits, with or without a sign, and the members of its
objects are sorted by key, each key once. -/
inductive Whole : Json → Prop
  | null : Whole .null
  | bool (b : Bool) : Whole (.bool b)
  | int {z : Int} (low : -(twoTo 63 : Nat) ≤ z) (high : z < (twoTo 64 : Nat)) : Whole (.int z)
  | str (s : String) : Whole (.str s)
  | arr {xs : List Json} (each : ∀ x ∈ xs, Whole x) : Whole (.arr xs)
  | obj {ms : List (String × Json)} (each : ∀ m ∈ ms, Whole m.2) (sorted : (ms.map Prod.fst).Pairwise (· < ·)) :
    Whole (.obj ms)

/-! ## The pieces of lists and objects -/

/-- The characters behind the bracket that opens a list. -/
def innerChars : List Json → List Char
  | [] => [']']
  | x :: xs => chars x ++ itemChars xs

theorem chars_arr (xs : List Json) : chars (.arr xs) = '[' :: innerChars xs := by
  cases xs <;> simp [chars, innerChars]

/-- The characters behind the brace that opens an object. -/
def innerMemberChars : List (String × Json) → List Char
  | [] => ['\x7d']
  | (k, v) :: ms => quoted k ++ ':' :: chars v ++ memberChars ms

theorem chars_obj (ms : List (String × Json)) : chars (.obj ms) = '\x7b' :: innerMemberChars ms := by
  rcases ms with _ | ⟨⟨k, v⟩, ms⟩ <;> simp [chars, innerMemberChars]

/-- A text starts with neither a blank nor a closing bracket. -/
def Starts (s : Bytes) : Prop := ∃ b rest, s = b :: rest ∧ isBlank b = false ∧ ascii b ≠ ']'

theorem Starts.append {s : Bytes} (h : Starts s) (rest : Bytes) : Starts (s ++ rest) := by
  obtain ⟨b, more, rfl, notBlank, notEnd⟩ := h
  exact ⟨b, more ++ rest, rfl, notBlank, notEnd⟩

theorem Starts.skipBlanks {s : Bytes} (h : Starts s) : skipBlanks s = s := by
  obtain ⟨b, rest, rfl, notBlank, -⟩ := h
  rw [Json.skipBlanks, List.dropWhile_cons_of_neg (by rw [notBlank]; exact Bool.false_ne_true)]

theorem not_digit {b : UInt8} {c : Char} (digit : isDigit b = true) (other : c.isDigit = false) : ascii b ≠ c := by
  rintro rfl
  rw [isDigit_ascii, digit] at other
  cases other

theorem not_blank {b : UInt8} (digit : isDigit b = true) : isBlank b = false := by
  have blank : ∀ c : UInt8, isDigit c = false → (b == c) = false := by
    intro c other
    rw [beq_eq_false_iff_ne]
    rintro rfl
    rw [digit] at other
    cases other
  rw [isBlank, blank _ (by decide), blank _ (by decide), blank _ (by decide), blank _ (by decide)]
  rfl

theorem starts_digit {b : UInt8} (digit : isDigit b = true) (s : Bytes) : Starts (b :: s) :=
  ⟨b, s, rfl, not_blank digit, not_digit digit (by decide)⟩

/-- No text starts with a blank or a closing bracket, and only that of `null` with an `n`. -/
theorem Whole.head {j : Json} (h : Whole j) :
    ∃ b rest, octets j.chars = b :: rest ∧ isBlank b = false ∧ ascii b ≠ ']' ∧ (ascii b = 'n' → j = .null) := by
  -- A text that starts with a byte other than an `n` need not be looked at further.
  have other : ∀ {b : UInt8} {rest : Bytes}, octets j.chars = b :: rest →
      isBlank b = false ∧ ascii b ≠ ']' ∧ ascii b ≠ 'n' →
        ∃ b rest, octets j.chars = b :: rest ∧ isBlank b = false ∧ ascii b ≠ ']' ∧ (ascii b = 'n' → j = .null) :=
    fun text ⟨notBlank, notEnd, notNull⟩ => ⟨_, _, text, notBlank, notEnd, fun null => absurd null notNull⟩
  cases h with
  | null => exact ⟨_, _, rfl, by decide, by decide, fun _ => rfl⟩
  | bool b => cases b <;> exact other rfl (by decide)
  | int low high =>
    rcases integerChars_cases low high ends_nil with ⟨s, text, -⟩ | ⟨b, s, text, digit, -⟩ <;>
      rw [List.append_nil] at text
    · exact other text (by decide)
    · exact other text ⟨not_blank digit, not_digit digit (by decide), not_digit digit (by decide)⟩
  | str s => exact other (by rw [chars, quoted]; rfl) (by decide)
  | arr _ => exact other (by rw [chars_arr]; rfl) (by decide)
  | obj _ _ => exact other (by rw [chars_obj]; rfl) (by decide)

theorem Whole.starts {j : Json} (h : Whole j) : Starts (octets j.chars) := by
  obtain ⟨b, rest, text, notBlank, notEnd, -⟩ := h.head
  exact ⟨b, rest, text, notBlank, notEnd⟩

/-! ## Lists -/

/-- With so many levels a value is read back from its text, or refused as too deep, whatever follows. -/
def Reads (room : Nat) (j : Json) : Prop :=
  ∀ rest, Ends rest →
    value room (octets j.chars ++ rest) = if j.depth ≤ room then .ok (j, rest) else .error .tooDeep

theorem nextItem_first {s : Bytes} (h : Starts s) : nextItem true s = .ok (true, s) := by
  have skipped := h.skipBlanks
  obtain ⟨b, rest, rfl, -, notEnd⟩ := h
  simp only [nextItem, skipped, notEnd, Bool.not_true, Bool.false_eq_true, and_false, if_true, if_false]

theorem nextItem_more {s : Bytes} (h : Starts s) : nextItem false (octets [','] ++ s) = .ok (true, s) := by
  have skipped := h.skipBlanks
  have comma : skipBlanks (octets [','] ++ s) = 0x2c :: s := rfl
  obtain ⟨b, rest, rfl, -, notEnd⟩ := h
  simp only [nextItem, comma, skipped, notEnd, (by decide : ascii 0x2c = ','), (by decide : ',' ≠ ']'), Bool.not_false,
    and_self, if_true, if_false]

theorem ends_itemChars (xs : List Json) (rest : Bytes) : Ends (octets (itemChars xs) ++ rest) := by
  cases xs <;> (intro b hb; cases hb; decide)

theorem octets_itemChars (x : Json) (xs : List Json) (rest : Bytes) :
    octets (itemChars (x :: xs)) ++ rest = octets [','] ++ (octets x.chars ++ (octets (itemChars xs) ++ rest)) := by
  simp only [itemChars, Utf8.octets_cons, Utf8.octets_append, Utf8.octets_nil, List.append_assoc, List.append_nil,
    List.cons_append]

/-- Once the first item is found, the items are read up to the closing bracket, or up to the first that is refused. -/
theorem itemsUntilEnd_cons {α β : Type} {item : Reader α} {form : β → Json} {outcome : β → Except Flaw α} {x : β}
    {xs : List β}
    (each : ∀ y ∈ x :: xs, Starts (octets (form y).chars) ∧
      ∀ rest, Ends rest → item (octets (form y).chars ++ rest) = (outcome y).map fun a => (a, rest))
    {first : Bool} {s rest : Bytes}
    (next : nextItem first s =
      .ok (true, octets (form x).chars ++ (octets (itemChars (xs.map form)) ++ rest))) {fuel : Nat}
    (enough : xs.length + 1 < fuel) :
    itemsUntilEnd item fuel first s = ((x :: xs).mapM outcome).map fun as => (as, octets [']'] ++ rest) := by
  -- On the items behind the one that was found; a bracket or a comma in front of them ends every number.
  induction xs generalizing x first s fuel with
  | nil =>
    obtain ⟨fuel, rfl⟩ : ∃ k, fuel = k + 2 := ⟨fuel - 2, by omega⟩
    have reads := (each x List.mem_cons_self).2 _ (ends_itemChars [] rest)
    rw [itemsUntilEnd, next]
    show (item (octets (form x).chars ++ (octets (itemChars []) ++ rest)) >>= _) = _
    rw [reads, List.mapM_cons]
    cases outcome x <;> rfl
  | cons y ys ih =>
    obtain ⟨fuel, rfl⟩ : ∃ k, fuel = k + 1 := ⟨fuel - 1, by omega⟩
    have reads := (each x List.mem_cons_self).2 _ (ends_itemChars ((y :: ys).map form) rest)
    have others := fun z hz => each z (List.mem_cons_of_mem x hz)
    have next' : nextItem false (octets (itemChars ((y :: ys).map form)) ++ rest) =
        .ok (true, octets (form y).chars ++ (octets (itemChars (ys.map form)) ++ rest)) := by
      rw [List.map_cons, octets_itemChars, nextItem_more ((others y List.mem_cons_self).1.append _)]
    have goesOn := ih others next' (Nat.lt_of_succ_lt_succ enough)
    rw [itemsUntilEnd, next]
    show (item _ >>= _) = _
    rw [reads, List.mapM_cons]
    cases outcome x with
    | error flaw => rfl
    | ok a =>
      show (itemsUntilEnd item fuel false _ >>= _) = ((y :: ys).mapM outcome >>= _).map _
      rw [goesOn]
      cases (y :: ys).mapM outcome <;> rfl

theorem length_lt_itemChars (xs : List Json) : xs.length < (itemChars xs).length := by
  induction xs with
  | nil => exact Nat.zero_lt_one
  | cons x xs ih =>
    rw [itemChars, List.length_append, List.length_cons, List.length_cons]
    omega

/-- The list of some values is read item by item. -/
theorem items_innerChars {α β : Type} {item : Reader α} {form : β → Json} {outcome : β → Except Flaw α} {xs : List β}
    (each : ∀ x ∈ xs, Starts (octets (form x).chars) ∧
      ∀ rest, Ends rest → item (octets (form x).chars ++ rest) = (outcome x).map fun a => (a, rest)) (rest : Bytes) :
    items item (octets (innerChars (xs.map form)) ++ rest) = (xs.mapM outcome).map fun as => (as, rest) := by
  cases xs with
  | nil => rfl
  | cons x xs =>
    have starts := (each x List.mem_cons_self).1
    have inner : octets (innerChars ((x :: xs).map form)) ++ rest =
        octets (form x).chars ++ (octets (itemChars (xs.map form)) ++ rest) := by
      rw [List.map_cons, innerChars, Utf8.octets_append, List.append_assoc]
    have enough := length_lt_itemChars (xs.map form)
    have long := Utf8.length_le_octets (itemChars (xs.map form))
    rw [List.length_map] at enough
    rw [inner, items, itemsUntilEnd_cons each (nextItem_first (starts.append _))
      (by simp only [List.length_append]; omega)]
    cases (x :: xs).mapM outcome <;> rfl

/-- The value itself, if it has no more levels than these. -/
def within (room : Nat) (j : Json) : Except Flaw Json :=
  if j.depth ≤ room then .ok j else .error .tooDeep

theorem mapM_within (room : Nat) (xs : List Json) :
    xs.mapM (within room) = if itemsDepth xs ≤ room then .ok xs else .error .tooDeep := by
  induction xs with
  | nil => rfl
  | cons x xs ih =>
    rw [List.mapM_cons, ih, itemsDepth, within]
    by_cases fits : x.depth ≤ room
    · simp only [fits, Nat.max_le, true_and, if_true]
      split <;> rfl
    · rw [if_neg fits, if_neg fun both => fits (Nat.max_le.mp both).1]
      rfl

/-! ## Objects -/

theorem octets_quoted (s : String) (rest : Bytes) :
    octets (quoted s) ++ rest = 0x22 :: (octets (s.toList.flatMap escapeChar) ++ octets ['"'] ++ rest) := by
  simp only [quoted, List.cons_append, Utf8.octets_cons, Utf8.octets_append, List.append_assoc]
  rfl

theorem nextKey_quoted (k : String) (rest : Bytes) :
    nextKey true (octets (quoted k) ++ rest) = .ok (some k, rest) ∧
      nextKey false (octets [','] ++ (octets (quoted k) ++ rest)) = .ok (some k, rest) := by
  rw [octets_quoted]
  constructor <;>
  · show (stringBody (octets (k.toList.flatMap escapeChar) ++ octets ['"'] ++ rest)).map _ = _
    rw [stringBody_quoted]
    rfl

theorem nextKey_end (first : Bool) (rest : Bytes) :
    nextKey first (octets ['\x7d'] ++ rest) = .ok (none, octets ['\x7d'] ++ rest) := by
  cases first <;> rfl

theorem ends_memberChars (ms : List (String × Json)) (rest : Bytes) : Ends (octets (memberChars ms) ++ rest) := by
  cases ms <;> (intro b hb; cases hb; decide)

theorem octets_memberChars (k : String) (v : Json) (ms : List (String × Json)) (rest : Bytes) :
    octets (memberChars ((k, v) :: ms)) ++ rest =
      octets [','] ++
        (octets (quoted k) ++ (octets [':'] ++ (octets v.chars ++ (octets (memberChars ms) ++ rest)))) := by
  simp only [memberChars, Utf8.octets_cons, Utf8.octets_append, Utf8.octets_nil, List.append_assoc, List.append_nil,
    List.cons_append]

/-- Once the first key is found, the members are read up to the closing brace, or a value of them is too deep. -/
theorem membersUntilEnd_cons {room : Nat} {k : String} {v : Json} {ms : List (String × Json)}
    (each : ∀ m ∈ (k, v) :: ms, Reads room m.2) {first : Bool} {s rest : Bytes}
    (next : nextKey first s =
      .ok (some k, octets [':'] ++ (octets v.chars ++ (octets (memberChars ms) ++ rest)))) {fuel : Nat}
    (enough : ms.length + 1 < fuel) :
    membersUntilEnd (value room) fuel first s =
      if membersDepth ((k, v) :: ms) ≤ room then .ok ((k, v) :: ms, octets ['\x7d'] ++ rest) else .error .tooDeep := by
  induction ms generalizing k v first s fuel with
  | nil =>
    obtain ⟨fuel, rfl⟩ : ∃ k, fuel = k + 2 := ⟨fuel - 2, by omega⟩
    have reads : Reads room v := each (k, v) List.mem_cons_self
    rw [membersUntilEnd, next]
    show (value room (octets v.chars ++ (octets (memberChars []) ++ rest)) >>= _) = _
    rw [reads _ (ends_memberChars [] rest), membersDepth, membersDepth, Nat.max_zero]
    split <;> rfl
  | cons m ms ih =>
    obtain ⟨fuel, rfl⟩ : ∃ k, fuel = k + 1 := ⟨fuel - 1, by omega⟩
    have reads : Reads room v := each (k, v) List.mem_cons_self
    have next' : nextKey false (octets (memberChars (m :: ms)) ++ rest) =
        .ok (some m.1, octets [':'] ++ (octets m.2.chars ++ (octets (memberChars ms) ++ rest))) := by
      rw [octets_memberChars, (nextKey_quoted m.1 _).2]
    have goesOn := ih (fun m hm => each m (List.mem_cons_of_mem _ hm)) next' (Nat.lt_of_succ_lt_succ enough)
    rw [membersUntilEnd, next]
    show (value room (octets v.chars ++ (octets (memberChars (m :: ms)) ++ rest)) >>= _) = _
    rw [reads _ (ends_memberChars _ rest), membersDepth]
    by_cases fits : v.depth ≤ room
    · rw [if_pos fits]
      show (membersUntilEnd (value room) fuel false _ >>= _) = _
      simp only [goesOn, Nat.max_le, fits, true_and]
      split <;> rfl
    · rw [if_neg fits, if_neg fun both => fits (Nat.max_le.mp both).1]
      rfl

theorem length_lt_memberChars (ms : List (String × Json)) : ms.length < (memberChars ms).length := by
  induction ms with
  | nil => exact Nat.zero_lt_one
  | cons m ms ih =>
    simp only [memberChars, List.length_append, List.length_cons]
    omega

theorem members_innerChars {room : Nat} {ms : List (String × Json)} (each : ∀ m ∈ ms, Reads room m.2) (rest : Bytes) :
    members (value room) (octets (innerMemberChars ms) ++ rest) =
      if membersDepth ms ≤ room then .ok (ms, rest) else .error .tooDeep := by
  cases ms with
  | nil => rfl
  | cons m ms =>
    have inner : octets (innerMemberChars (m :: ms)) ++ rest =
        octets (quoted m.1) ++ (octets [':'] ++ (octets m.2.chars ++ (octets (memberChars ms) ++ rest))) := by
      simp only [innerMemberChars, Utf8.octets_cons, Utf8.octets_append, Utf8.octets_nil, List.append_assoc,
        List.append_nil]
    have enough := length_lt_memberChars ms
    have long := Utf8.length_le_octets (memberChars ms)
    rw [inner, members, membersUntilEnd_cons each (nextKey_quoted m.1 _).1
      (by simp only [List.length_append]; omega)]
    split <;> rfl

/-- A member with a greater key goes behind all others. -/
theorem insertMember_of_lt {k : String} (v : Json) {ms : List (String × Json)} (greater : ∀ m ∈ ms, m.1 < k) :
    insertMember k v ms = ms ++ [(k, v)] := by
  induction ms with
  | nil => rfl
  | cons m ms ih =>
    have lt := greater m List.mem_cons_self
    rw [insertMember, if_neg fun same => String.lt_irrefl _ (same ▸ lt), if_neg (String.lt_asymm lt),
      ih fun m hm => greater m (List.mem_cons_of_mem _ hm), List.cons_append]

/-- Members in order of their keys make the object that has them. -/
theorem object_of_sorted {ms : List (String × Json)} (sorted : (ms.map Prod.fst).Pairwise (· < ·)) :
    object ms = .obj ms := by
  -- The object is built from the front, so what is already there has smaller keys.
  suffices all : ∀ before : List (String × Json), ((before ++ ms).map Prod.fst).Pairwise (· < ·) →
      ms.foldl (fun acc m => insertMember m.1 m.2 acc) before = before ++ ms by
    rw [object, all [] sorted, List.nil_append]
  clear sorted
  induction ms with
  | nil => exact fun before _ => (List.append_nil _).symm
  | cons m ms ih =>
    intro before sorted
    have greater : ∀ p ∈ before, p.1 < m.1 := by
      intro p hp
      rw [List.map_append, List.pairwise_append] at sorted
      exact sorted.2.2 p.1 (List.mem_map_of_mem hp) m.1 List.mem_cons_self
    rw [List.foldl_cons, insertMember_of_lt m.2 greater, ih _ (by rwa [List.append_assoc]), List.append_assoc]
    rfl

/-! ## Whole values -/

theorem reads_of_flat {j : Json} (flat : j.depth = 0)
    (read : ∀ nested rest, Ends rest → valueWith nested (octets j.chars ++ rest) = .ok (j, rest)) (room : Nat) :
    Reads room j := by
  intro rest ends
  rw [flat, if_pos (Nat.zero_le room)]
  cases room with
  | zero => exact read none rest ends
  | succ room => exact read (some (value room)) rest ends

theorem valueWith_digit {b : UInt8} (digit : isDigit b = true) (nested : Option (Reader Json)) (s : Bytes) :
    valueWith nested (b :: s) = (number false (b :: s)).map fun (n, s) => (n.toJson, s) := by
  unfold valueWith
  rw [(starts_digit digit s).skipBlanks]
  dsimp only
  split
  case h_8 => rw [if_pos digit]
  -- No other byte that starts a value is a digit.
  all_goals exact absurd ‹ascii b = _› (not_digit digit (by decide))

theorem valueWith_integer {z : Int} (low : -(twoTo 63 : Nat) ≤ z) (high : z < (twoTo 64 : Nat))
    (nested : Option (Reader Json)) {rest : Bytes} (ends : Ends rest) :
    valueWith nested (octets (integerChars z) ++ rest) = .ok (.int z, rest) := by
  rcases integerChars_cases low high ends with ⟨s, text, read⟩ | ⟨b, s, text, digit, read⟩
  · rw [text]
    show (number true s).map _ = _
    rw [read]
    rfl
  · rw [text, valueWith_digit digit, read]
    rfl

/-- A value without fractions is read back from its text, or refused as too deep. -/
theorem Whole.reads {j : Json} (h : Whole j) (room : Nat) : Reads room j := by
  -- For every room at once: inside a list or an object there is one level less.
  induction h generalizing room with
  | null => exact reads_of_flat rfl (fun _ _ _ => rfl) room
  | bool b => exact reads_of_flat rfl (fun _ _ _ => by cases b <;> rfl) room
  | int low high => exact reads_of_flat rfl (fun nested _ => valueWith_integer low high nested) room
  | str s =>
    refine reads_of_flat rfl (fun nested rest _ => ?_) room
    rw [chars, octets_quoted]
    show (stringBody _).map _ = _
    rw [stringBody_quoted]
    rfl
  | @arr xs each ih =>
    intro rest _
    rw [chars_arr, depth]
    cases room with
    | zero => rfl -- The bracket itself is one level too many.
    | succ room =>
      have item : ∀ x ∈ xs, Starts (octets x.chars) ∧ ∀ rest, Ends rest →
          value room (octets x.chars ++ rest) = (within room x).map fun x => (x, rest) := by
        intro x hx
        refine ⟨(each x hx).starts, fun rest ends => ?_⟩
        rw [ih x hx room rest ends, within]
        split <;> rfl
      have read := items_innerChars item rest
      rw [List.map_id', mapM_within] at read
      show (items (value room) (octets (innerChars xs) ++ rest)).map _ = _
      rw [read]
      simp only [Nat.add_le_add_iff_right]
      split <;> rfl
  | @obj ms each sorted ih =>
    intro rest _
    rw [chars_obj, depth]
    cases room with
    | zero => rfl
    | succ room =>
      show (members (value room) (octets (innerMemberChars ms) ++ rest)).map _ = _
      rw [members_innerChars fun m hm => ih m hm room, ← object_of_sorted sorted]
      simp only [Nat.add_le_add_iff_right]
      split <;> rfl

/-- The text of a value without fractions gives the value back, unless it nests deeper than a text may. -/
theorem parse_text {j : Json} (h : Whole j) :
    parse (Utf8.encode j.text) = if j.depth ≤ maxDepth then .ok j else .error .tooDeep := by
  have read := h.reads maxDepth [] ends_nil
  rw [List.append_nil] at read
  rw [parse, readAll, text, Utf8.encode_ofList, read]
  split <;> rfl

end Courier.Json
