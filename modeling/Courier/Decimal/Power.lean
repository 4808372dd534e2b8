/-
# Courier.Decimal.Power -- powers of two and of ten

The two bases in which sizes are counted: words have two to some power values, and decimal digits
count in powers of ten.
-/

namespace Courier

def twoTo (n : Nat) : Nat := Nat.pow 2 n

def tenTo (n : Nat) : Nat := Nat.pow 10 n

end Courier
