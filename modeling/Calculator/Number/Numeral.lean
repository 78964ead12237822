import Calculator.Number.Decimal

namespace Calculator

/-- The decimal that a run of digits and points spells: at least one digit, and at most one
point, which may also come first or last. -/
def Decimal.ofNumeral? (text : List Char) : Option Decimal :=
  let whole := text.takeWhile (· ≠ '.')
  let part := (text.dropWhile (· ≠ '.')).drop 1
  if '.' ∈ part ∨ whole ++ part = [] then none
  else some ⟨Nat.ofDigitChars 10 (whole ++ part) 0, -(part.length : Int)⟩

/-- The value that a numeral spells, rounded to the nearest. -/
def ofNumeral? (text : List Char) : Option Float :=
  (Decimal.ofNumeral? text).map fun d => floatOfRank false d.rank

end Calculator
