/-
# Courier.Toml.Value -- the values of a settings file

A settings file is one table. Its entries are values of a few simple kinds, lists, and tables again;
a table can be written in several ways, and which of them may be combined is the hard part of the
format. So every table carries its `Origin`, and the two operations on tables are here: `descend`,
which walks along a key and makes the tables that are missing on the way, and `assign`, which puts
a value at the end of a key.
-/
import Courier.Decimal.Power

namespace Courier.Toml

/-! ## Simple values -/

/-- A number with a fraction or an exponent. -/
inductive Number where
  /-- The number is the significand times ten to the power. -/
  | decimal (negative : Bool) (significand : Nat) (power : Int)
  | infinity (negative : Bool)
  | nan
deriving DecidableEq, Repr

namespace Number

/-- The smallest number that is no longer finite in double precision: half a unit above the largest. -/
def limit : Nat := twoTo 1024 - twoTo 970

/-- Is the number too large for double precision? The first two tests keep the powers small. -/
def isTooLarge : Number → Bool
  | .decimal false 0 _ => false
  | .decimal false significand power =>
    let magnitude := (Nat.toDigits 10 significand).length + power
    if 400 < magnitude then true
    else if magnitude < 300 then false
    else if 0 ≤ power then decide (limit ≤ significand * tenTo power.toNat)
    else decide (limit * tenTo power.natAbs ≤ significand)
  | _ => false

end Number

/-- A day of the calendar. -/
structure Day where
  year : Nat
  month : Nat
  day : Nat
deriving DecidableEq, Repr

/-- A time of the day; the fraction is kept as it is written. -/
structure Clock where
  hour : Nat
  minute : Nat
  second : Nat
  fraction : List Nat
deriving DecidableEq, Repr

/-- A date, a time, or both; only both together can name their distance from universal time, in
minutes. -/
inductive Moment where
  | day (d : Day)
  | clock (c : Clock)
  | both (d : Day) (c : Clock) (offset : Option Int)
deriving DecidableEq, Repr

namespace Day

def isLeapYear (year : Nat) : Bool :=
  year % 4 == 0 && (year % 100 != 0 || year % 400 == 0)

def daysIn (year month : Nat) : Nat :=
  if month = 2 then if isLeapYear year then 29 else 28
  else if [4, 6, 9, 11].contains month then 30
  else 31

/-- Is there such a day? -/
def isValid (d : Day) : Bool :=
  1 ≤ d.month && d.month ≤ 12 && 1 ≤ d.day && d.day ≤ daysIn d.year d.month

end Day

/-- Is there such a time? A leap second counts. -/
def Clock.isValid (c : Clock) : Bool :=
  c.hour ≤ 23 && c.minute ≤ 59 && c.second ≤ 60

/-! ## Tables -/

/-- How a table came to be. -/
inductive Origin where
  /-- A header names it. -/
  | header
  /-- The header of a table further down implies it. -/
  | implied
  /-- A key with dots in it makes it. -/
  | dotted
  /-- It is written between braces, and closed with them. -/
  | braces
deriving DecidableEq, Repr

/-- A value, or a table of them. The entries of a table stand in the order of their first mention. -/
inductive Value where
  | string (s : String)
  | integer (z : Int)
  | float (x : Number)
  | boolean (b : Bool)
  | moment (m : Moment)
  | array (items : List Value)
  | table (origin : Origin) (entries : List (String × Value))
  /-- Tables of one name whose headers are doubled; the latest is the last. -/
  | tables (elements : List (List (String × Value)))

/-- What stands in a table. -/
abbrev Entries := List (String × Value)

/-- A key: the names between its dots. -/
abbrev Key := List String

namespace Entries

def get? (es : Entries) (name : String) : Option Value :=
  es.lookup name

/-- Puts a value at a name, in the place of an earlier one. -/
def put (es : Entries) (name : String) (v : Value) : Entries :=
  if (es.get? name).isSome then es.map fun e => if e.1 = name then (name, v) else e
  else es ++ [(name, v)]

def remove (es : Entries) (name : String) : Entries :=
  es.filter fun e => e.1 ≠ name

/-- Walks along the names and changes the table at their end; `change` also learns how that table
came to be. Missing tables are made, with the given origin. The walk goes into the latest of several
tables. It is refused at a value, at a table between braces and, if the names are those of a key
(`origin` is `dotted`), at a table that has a header. -/
def descend (origin : Origin) (change : Origin → Entries → Option Entries) :
    List String → Origin → Entries → Option Entries
  | [], here, es => change here es
  | name :: names, _, es =>
    match es.get? name with
    | none => do
      let inner ← descend origin change names origin []
      some (es.put name (.table origin inner))
    | some (.table there inner) =>
      if there = .braces || (there = .header && origin = .dotted) then none
      else do
        let inner ← descend origin change names there inner
        some (es.put name (.table there inner))
    | some (.tables elements) =>
      match elements.getLast? with
      | none => none
      | some inner => do
        let inner ← descend origin change names .header inner
        some (es.put name (.tables (elements.dropLast ++ [inner])))
    | some _ => none

/-- Gives a value to a key, once. A key with dots may add to what other keys with dots made and to
new tables, and not to a table that has, or only lacks, a header of its own. -/
def assign (key : Key) (v : Value) (es : Entries) : Option Entries :=
  match key.getLast? with
  | none => none
  | some name =>
    let through := key.dropLast
    descend .dotted (fun here es =>
      if (here = .dotted || through.isEmpty) && (es.get? name).isNone then some (es.put name v)
      else none) through .header es

end Entries

end Courier.Toml
