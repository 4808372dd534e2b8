/-
# Courier.Decimal.Shortest -- the fewest digits that read back

A binary fraction is written with as few decimal digits as still lead back to it. The choice is made
in exact natural-number arithmetic on the bits of the value: the interval of reals that round to it
is written over a common denominator, and for one digit, two digits and so on the two neighbours of
the value on that decimal grid are tried. The first grid with a hit wins, and of two hits the nearer
one. How the digits are laid out is no concern of this module.
-/
import Courier.Decimal.Power

namespace Courier.Decimal

/-- A finite binary fraction `± significand · 2 ^ exponent`. -/
structure Binary where
  negative : Bool
  significand : Nat
  exponent : Int
deriving DecidableEq, Repr

/-- The value with these sixty-four bits: one sign bit, eleven exponent bits and fifty-two stored
digits. None for infinities and for the codes that stand for no number. -/
def Binary.ofBits? (bits : UInt64) : Option Binary :=
  let n := bits.toNat
  let negative := decide (twoTo 63 ≤ n)
  let code : Nat := n / twoTo 52 % twoTo 11
  let stored : Nat := n % twoTo 52
  if code = 2047 then none
  else if code = 0 then some ⟨negative, stored, -1074⟩
  else some ⟨negative, twoTo 52 + stored, (code : Int) - 1075⟩

/-- Decimal digits, most significant first, that stand for `0.d₁d₂… · 10 ^ point`. -/
structure Digits where
  digits : List Nat
  point : Int
deriving DecidableEq, Repr

/-- The interval of reals that round to a value, over a common denominator: `low ≤ middle ≤ high`
stand for `low / scale` and so on, and the ends belong to the interval iff `closed`. -/
structure Interval where
  low : Nat
  middle : Nat
  high : Nat
  scale : Nat
  closed : Bool
deriving Repr

/-- The lower neighbour is half as far away when the significand is the least of its exponent. -/
def Binary.interval (b : Binary) : Interval :=
  let narrow := b.significand = twoTo 52 ∧ -1074 < b.exponent
  let up := if 0 ≤ b.exponent then twoTo b.exponent.toNat else 1
  let scale := if 0 ≤ b.exponent then 4 else 4 * twoTo (-b.exponent).toNat
  { low := (4 * b.significand - if narrow then 1 else 2) * up
    middle := 4 * b.significand * up
    high := (4 * b.significand + 2) * up
    scale
    closed := b.significand % 2 == 0 }

/-- Is `m · 10 ^ k` inside the interval? -/
def Interval.holds (i : Interval) (m : Nat) (k : Int) : Bool :=
  let left := if 0 ≤ k then m * tenTo k.toNat * i.scale else m * i.scale
  let unit := if 0 ≤ k then 1 else tenTo (-k).toNat
  if i.closed then i.low * unit ≤ left && left ≤ i.high * unit
  else i.low * unit < left && left < i.high * unit

/-- The grid point with step `10 ^ k` at or below the value. -/
def Interval.floor (i : Interval) (k : Int) : Nat :=
  if 0 ≤ k then i.middle / (i.scale * tenTo k.toNat) else i.middle * tenTo (-k).toNat / i.scale

/-- Twice the distance of the value above the grid point `m`, compared with one step. -/
def Interval.nearerBelow (i : Interval) (m : Nat) (k : Int) : Ordering :=
  let value := if 0 ≤ k then i.middle else i.middle * tenTo (-k).toNat
  let step := if 0 ≤ k then i.scale * tenTo k.toNat else i.scale
  compare (2 * (value - m * step)) step

/-- The point of the grid with step `10 ^ k` that reads back, the nearer one if both neighbours do;
an exact tie goes to the even one. -/
def Interval.pick? (i : Interval) (k : Int) : Option Nat :=
  let below := i.floor k
  match i.holds below k, i.holds (below + 1) k with
  | true, true =>
    match i.nearerBelow below k with
    | .lt => some below
    | .gt => some (below + 1)
    | .eq => some (if below % 2 = 0 then below else below + 1)
  | true, false => some below
  | false, true => some (below + 1)
  | false, false => none

/-- The first grid with a hit, from the coarse one with step `10 ^ k` down by `tries` steps. -/
def Interval.search (i : Interval) : Nat → Int → Nat × Int
  | 0, k => (i.floor k, k)
  | tries + 1, k =>
    match i.pick? k with
    | some m => (m, k)
    | none => i.search tries (k - 1)

/-- The digits of a number in base ten, without trailing zeros; the exponent counts them in. -/
def stripZeros : Nat → Nat → Int → Nat × Int
  | 0, m, k => (m, k)
  | fuel + 1, m, k => if m % 10 = 0 ∧ m ≠ 0 then stripZeros fuel (m / 10) (k + 1) else (m, k)

/-- The digits of a natural number, most significant first. -/
def digitsOf (n : Nat) : List Nat :=
  (Nat.toDigits 10 n).map fun c => c.toNat - '0'.toNat

/-- The shortest digits that read back as `b`. Zero has the single digit zero. The scan starts one
power of ten above the value, and eighteen grids later every value has been met. -/
def Binary.shortest (b : Binary) : Digits :=
  if b.significand = 0 then ⟨[0], 1⟩
  else
    let i := b.interval
    let whole := (Nat.toDigits 10 (i.middle / i.scale)).length
    let lead : Int :=
      if i.scale ≤ i.middle then whole
      else 1 - (Nat.toDigits 10 (i.scale / i.middle)).length + 1
    let (m, k) := i.search 20 lead
    let (m, k) := stripZeros 25 m k
    let ds := digitsOf m
    ⟨ds, k + ds.length⟩

end Courier.Decimal
