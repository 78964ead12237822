namespace Calculator

/-- The binary operators. -/
inductive Operator
  | add
  | sub
  | mul
  | div
  | pow
deriving DecidableEq, Repr

/-- Every operator once. -/
def Operator.all : List Operator :=
  [.add, .sub, .mul, .div, .pow]

/-- The character that writes an operator. -/
def Operator.symbol : Operator → Char
  | .add => '+'
  | .sub => '-'
  | .mul => '*'
  | .div => '/'
  | .pow => '^'

/-- The operator that a character writes. -/
def Operator.ofSymbol? (c : Char) : Option Operator :=
  Operator.all.find? (·.symbol == c)

/-- How tightly an operator binds. A larger number binds tighter. -/
def Operator.precedence : Operator → Nat
  | .add | .sub => 2
  | .mul | .div => 3
  | .pow => 4

/-- Whether operators in a row group from the right, as `a ^ (b ^ c)`. -/
def Operator.groupsRight : Operator → Bool
  | .pow => true
  | .add | .sub | .mul | .div => false

/-- Unary minus binds tighter than every binary operator: `-2 ^ 2` is four. -/
def negatePrecedence : Nat :=
  5

end Calculator
