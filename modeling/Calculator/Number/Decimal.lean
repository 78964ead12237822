import Calculator.Number.Binary64

namespace Calculator

/-- The number `digits * 10 ^ exponent`. -/
structure Decimal where
  digits : Nat
  exponent : Int
deriving DecidableEq, Repr

/-- The rank that a decimal reads as. -/
def Decimal.rank (d : Decimal) : Nat :=
  nearestRank (d.digits * Nat.pow 10 d.exponent.toNat * unitsPerOne) (Nat.pow 10 (-d.exponent).toNat)

/-- The power of ten of the first digit of a positive finite rank. The smallest magnitude is more
than 10 ^ -324, so that with 324 further places every magnitude has a digit before the point. -/
def leadingPlace (rank : Nat) : Int :=
  (Nat.toDigits 10 (rankUnits rank * Nat.pow 10 324 / unitsPerOne)).length - 325

/-- Numerator and denominator of a rank's magnitude, counted in steps of 10 ^ `place`. -/
def stepsAt (rank : Nat) (place : Int) : Nat × Nat :=
  (rankUnits rank * Nat.pow 10 (-place).toNat, unitsPerOne * Nat.pow 10 place.toNat)

/-- The exact magnitude of a rank rounded to so many significant digits, halves to even. At least
one digit is kept. -/
def Decimal.rounded (rank digits : Nat) : Decimal :=
  let place := leadingPlace rank - (max digits 1 - 1 : Nat)
  let steps := stepsAt rank place
  ⟨divNearest steps.1 steps.2, place⟩

/-- `x` rounded to so many significant decimal digits, and that decimal read back. Zeros, infinities
and what is no number have no digits to round and stay. -/
def roundSignificant (x : Float) (digits : Nat) : Float :=
  if floatRank x = 0 ∨ infinityRank ≤ floatRank x then x
  else floatOfRank (isNegative x) (Decimal.rounded (floatRank x) digits).rank

end Calculator
