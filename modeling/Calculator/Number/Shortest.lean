import Calculator.Number.Decimal

namespace Calculator

/-- Which of two equally near decimals stands for a value. -/
inductive Tie
  | up
  | even
deriving DecidableEq, Repr

/-- The decimal in steps of 10 ^ `place` that reads as `rank`, if there is one. Only the two
neighbours of the magnitude can be it; if both read back, it is the nearer. -/
def Decimal.atPlace? (tie : Tie) (rank : Nat) (place : Int) : Option Decimal :=
  let (n, d) := stepsAt rank place
  let below : Decimal := ⟨n / d, place⟩
  let above : Decimal := ⟨n / d + 1, place⟩
  if below.rank = rank then
    if above.rank = rank then
      if 2 * (n % d) < d then below
      else if d < 2 * (n % d) then above
      else if tie = .even ∧ n / d % 2 = 0 then below
      else above
    else below
  else if above.rank = rank then above
  else none

/-- The exact magnitude of a rank: a unit is 5 ^ 1074 * 10 ^ -1074. -/
def Decimal.exact (rank : Nat) : Decimal :=
  ⟨rankUnits rank * Nat.pow 5 1074, -1074⟩

/-- The fewest digits that read as `rank`, and of those the nearest. Coarser places are tried first,
from the one above the first digit down to seventeen digits, which always suffice. -/
def Decimal.shortest (tie : Tie) (rank : Nat) : Decimal :=
  if rank = 0 then ⟨0, 0⟩
  else
    let top := leadingPlace rank + 1
    ((List.range 18).findSome? fun (i : Nat) => Decimal.atPlace? tie rank (top - i)).getD
      (.exact rank)

end Calculator
