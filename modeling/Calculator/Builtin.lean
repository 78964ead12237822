namespace Calculator

/-- The functions that an expression can call. -/
inductive Builtin
  | sin
  | cos
  | tan
  | sqrt
  | log
  | ln
  | abs
  | pow
deriving DecidableEq, Repr

/-- Every function once. -/
def Builtin.all : List Builtin :=
  [.sin, .cos, .tan, .sqrt, .log, .ln, .abs, .pow]

/-- The name by which a function is called. -/
def Builtin.name : Builtin → String
  | .sin => "sin"
  | .cos => "cos"
  | .tan => "tan"
  | .sqrt => "sqrt"
  | .log => "log"
  | .ln => "ln"
  | .abs => "abs"
  | .pow => "pow"

/-- The function of a name in lower case. -/
def Builtin.ofName? (name : String) : Option Builtin :=
  Builtin.all.find? (·.name == name)

/-- How many arguments a function takes. -/
def Builtin.arity : Builtin → Nat
  | .pow => 2
  | .sin | .cos | .tan | .sqrt | .log | .ln | .abs => 1

/-- The value nearest to the circle number. -/
def piValue : Float :=
  .ofBits 0x400921fb54442d18

/-- The value nearest to the base of the natural logarithm. -/
def eulerValue : Float :=
  .ofBits 0x4005bf0a8b145769

/-- The value of a named constant. -/
def constant? (name : String) : Option Float :=
  if name = "pi" then some piValue
  else if name = "e" then some eulerValue
  else none

end Calculator
