namespace Calculator

/-!
Floating-point values through their bits. Leaving the sign aside, the bit patterns of the finite
values and of infinity are the numbers from 0 to `infinityRank`, in the order of their magnitudes;
such a number is called a rank. The magnitude of a rank is a whole number of units of 2 ^ -1074, the
smallest positive value, so that decimals and values are compared in natural numbers.
-/

/-- The rank of infinity. The patterns above it stand for no number. -/
def infinityRank : Nat :=
  0x7ff0000000000000

/-- The bits of `x` without the sign. -/
def floatRank (x : Float) : Nat :=
  x.toBits.toNat % Nat.pow 2 63

/-- Whether the sign bit of `x` is set, as it is for the negative zero. -/
def isNegative (x : Float) : Bool :=
  Nat.pow 2 63 ≤ x.toBits.toNat

/-- The value with this sign and rank. -/
def floatOfRank (negative : Bool) (rank : Nat) : Float :=
  .ofBits (.ofNat (if negative then Nat.pow 2 63 + rank else rank))

/-- The positive zero. -/
def floatZero : Float :=
  floatOfRank false 0

/-- How many units make one. -/
def unitsPerOne : Nat :=
  Nat.pow 2 1074

/-- The magnitude of a rank in units. The ranks below 2 ^ 53 count single units; each later run of
2 ^ 52 ranks has steps twice as long. Infinity gets the magnitude where the next run would start. -/
def rankUnits (rank : Nat) : Nat :=
  if rank < Nat.pow 2 52 then rank
  else (Nat.pow 2 52 + rank % Nat.pow 2 52) * Nat.pow 2 (rank / Nat.pow 2 52 - 1)

/-- `n / d` rounded to the nearest whole number, halves to the even one. -/
def divNearest (n d : Nat) : Nat :=
  if 2 * (n % d) < d then n / d
  else if d < 2 * (n % d) then n / d + 1
  else n / d + n / d % 2

/-- The rank nearest to a magnitude of `n / d` units, halves to the even rank. A magnitude of half a
step or more above the largest finite one becomes infinity. -/
def nearestRank (n d : Nat) : Nat :=
  let shift := Nat.log2 (n / d) - 52
  min infinityRank (shift * Nat.pow 2 52 + divNearest n (d * Nat.pow 2 shift))

end Calculator
