import Calculator.Number.Shortest

namespace Calculator

/-- How the shortest digits of a number are laid out as text. -/
structure NumberStyle where
  /-- The places of the first digit at which no exponent is written. -/
  positional : Int → Bool
  /-- Whether a whole number without an exponent ends in a point and a zero. -/
  keepsPoint : Bool
  /-- What stands before an exponent that is not negative. -/
  exponentSign : List Char
  /-- Which of two equally near decimals is written. -/
  tie : Tie

/-- `digits` with the point after so many of them; places that no digit fills hold zeros. -/
def NumberStyle.positionalText (style : NumberStyle) (digits : List Char) (point : Int) :
    List Char :=
  if point ≤ 0 then '0' :: '.' :: (List.replicate (-point).toNat '0' ++ digits)
  else if point < digits.length then
    digits.take point.toNat ++ '.' :: digits.drop point.toNat
  else
    digits ++ List.replicate (point.toNat - digits.length) '0' ++
      (if style.keepsPoint then ['.', '0'] else [])

/-- `digits` with the point after the first one, and the place of that one as exponent. -/
def NumberStyle.exponentText (style : NumberStyle) (digits : List Char) (place : Int) :
    List Char :=
  digits.take 1 ++ (if digits.length ≤ 1 then [] else '.' :: digits.drop 1) ++
    'e' :: ((if place < 0 then ['-'] else style.exponentSign) ++ Nat.toDigits 10 place.natAbs)

/-- The text of a decimal. Zero counts as having its first digit at the ones. -/
def NumberStyle.decimalText (style : NumberStyle) (d : Decimal) : List Char :=
  let digits := Nat.toDigits 10 d.digits
  let point := d.exponent + digits.length
  if style.positional (point - 1) then style.positionalText digits point
  else style.exponentText digits (point - 1)

/-- The sign of `x` and the shortest digits of its magnitude; `x` is finite. -/
def NumberStyle.finiteText (style : NumberStyle) (x : Float) : List Char :=
  (if isNegative x then ['-'] else []) ++ style.decimalText (.shortest style.tie (floatRank x))

/-- The text of any value, with words for those that are no numbers. -/
def NumberStyle.text (style : NumberStyle) (x : Float) : String :=
  if floatRank x < infinityRank then .ofList (style.finiteText x)
  else if floatRank x = infinityRank then if isNegative x then "-inf" else "inf"
  else "NaN"

/-- Results and tokens are written in full, without an exponent. -/
def plainStyle : NumberStyle :=
  ⟨fun _ => true, false, [], .up⟩

end Calculator
