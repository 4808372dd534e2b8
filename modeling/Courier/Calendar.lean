/-
# Courier.Calendar -- dates of times

Times are milliseconds since the start of 1970 in universal time, of either sign. A date belongs to
the proleptic Gregorian calendar, whose pattern of leap years repeats every 400 years: counted from
the first of March, the day of leap years is the last day of its year, so that the lengths of the
months before it never vary.

Dates exist for a range of years only; a time outside it has none.
-/

namespace Courier

/-- A date. -/
structure Date where
  year : Int
  month : Nat
  day : Nat
deriving DecidableEq, Repr

/-- A date and a time of day. -/
structure Moment where
  date : Date
  hour : Nat
  minute : Nat
  second : Nat
  millis : Nat
deriving DecidableEq, Repr

namespace Calendar

/-- The number of days in 400 years. -/
def daysPerEra : Nat := 146097

/-- The years that have dates. -/
def firstYear : Int := -262143

def lastYear : Int := 262142

/-- The date that is some days after the first of January 1970. -/
def dateOfDay (day : Int) : Date :=
  -- days since the first of March of the year zero
  let shifted := day + 719468
  let era := shifted.fdiv daysPerEra
  let dayOfEra := (shifted.fmod daysPerEra).toNat
  let yearOfEra := (dayOfEra - dayOfEra / 1460 + dayOfEra / 36524 - dayOfEra / 146096) / 365
  let dayOfYear := dayOfEra - (365 * yearOfEra + yearOfEra / 4 - yearOfEra / 100)
  let monthFromMarch := (5 * dayOfYear + 2) / 153
  let month := if monthFromMarch < 10 then monthFromMarch + 3 else monthFromMarch - 9
  { year := era * 400 + yearOfEra + if month ≤ 2 then 1 else 0
    month
    day := dayOfYear - (153 * monthFromMarch + 2) / 5 + 1 }

/-- The date and time of day of a time, if its year has dates. -/
def moment? (millis : Int) : Option Moment :=
  let date := dateOfDay (millis.fdiv 86400000)
  let rest := (millis.fmod 86400000).toNat
  if firstYear ≤ date.year ∧ date.year ≤ lastYear then
    some {
      date
      hour := rest / 3600000
      minute := rest / 60000 % 60
      second := rest / 1000 % 60
      millis := rest % 1000 }
  else none

/-! ## Texts -/

/-- A number with zeros before it up to a width. -/
def padded (width n : Nat) : String :=
  let digits := Nat.toDigits 10 n
  String.ofList (List.replicate (width - digits.length) '0' ++ digits)

/-- A year; one that does not have four digits at most is written with its sign. -/
def yearText (year : Int) : String :=
  if year < 0 then "-" ++ padded 4 year.natAbs
  else if year < 10000 then padded 4 year.natAbs
  else "+" ++ padded 4 year.natAbs

end Calendar

open Calendar

def Date.text (d : Date) : String :=
  yearText d.year ++ "-" ++ padded 2 d.month ++ "-" ++ padded 2 d.day

/-- The time of day, to the second. -/
def Moment.clock (m : Moment) : String :=
  padded 2 m.hour ++ ":" ++ padded 2 m.minute ++ ":" ++ padded 2 m.second

/-- The standard text of a moment in universal time; whole seconds have no fraction. -/
def Moment.standard (m : Moment) : String :=
  m.date.text ++ "T" ++ m.clock ++ (if m.millis = 0 then "" else "." ++ padded 3 m.millis) ++ "Z"

namespace Calendar

/-- The time in a listing: date and time of day, or the number of milliseconds if it has no date. -/
def listed (millis : Int) : String :=
  match moment? millis with
  | some m => m.date.text ++ " " ++ m.clock
  | none => toString millis

/-- The standard text of a time; a time without a date counts as the start of 1970. -/
def standard (millis : Int) : String :=
  match moment? millis with
  | some m => m.standard
  | none => "1970-01-01T00:00:00Z"

end Calendar

end Courier
