/-
# Courier.Task.Identifier -- ids of new tasks

A new task gets an id of 36 characters: the hexadecimal digits of a number of 128 bits in five groups.
Six of the bits say that the others were chosen at random.
-/
import Courier.Decimal.Power

namespace Courier.Identifier

/-- Small hexadecimal digits with zeros before them up to a width. -/
def digits (width n : Nat) : List Char :=
  let ds := Nat.toDigits 16 n
  List.replicate (width - ds.length) '0' ++ ds

/-- The id made of the low bits of a number. -/
def ofNumber (n : Nat) : String :=
  let time := n / twoTo 64 / twoTo 16 % twoTo 48
  let version := 0x4000 + n / twoTo 64 % twoTo 12
  let variant := 0x8000 + n / twoTo 48 % twoTo 14
  String.ofList (digits 8 (time / twoTo 16) ++ '-' :: digits 4 (time % twoTo 16) ++
    '-' :: digits 4 version ++ '-' :: digits 4 variant ++ '-' :: digits 12 (n % twoTo 48))

end Courier.Identifier
