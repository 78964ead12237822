import Calculator.Builtin
import Calculator.Number.Decimal
import Calculator.Operator

namespace Calculator

/-- Why a postfix sequence has no value. -/
inductive EvalError
  | missingUnaryOperand
  | insufficientOperands (op : Operator)
  | divisionByZero
  | powArity
  | missingArgument (function : Builtin)
  | tooManyArguments (function : Builtin)
  | sqrtOfNegative
  | logOfNonPositive (function : Builtin)
  | unknownToken (text : String)
  | invalidExpression
  | notFinite
deriving DecidableEq, Repr

/-- What a reader is told. -/
def EvalError.message : EvalError → String
  | .missingUnaryOperand => "missing operand for unary minus"
  | .insufficientOperands op => "insufficient operands for " ++ op.symbol.toString
  | .divisionByZero => "division by zero"
  | .powArity => "pow requires 2 arguments"
  | .missingArgument function => "missing argument for " ++ function.name
  | .tooManyArguments function => function.name ++ " takes 1 argument"
  | .sqrtOfNegative => "sqrt of negative number"
  | .logOfNonPositive function => function.name ++ " of non-positive number"
  | .unknownToken text => "unknown token: " ++ text
  | .invalidExpression => "invalid expression"
  | .notFinite => "result is not a finite number"

/-- The value of an operator. Only a zero divisor, of either sign, is refused; whatever else leaves
the numbers goes on as an infinity or an undefined value. -/
def Operator.apply (op : Operator) (left right : Float) : Except EvalError Float :=
  match op with
  | .add => .ok (left + right)
  | .sub => .ok (left - right)
  | .mul => .ok (left * right)
  | .div => if right == floatZero then .error .divisionByZero else .ok (left / right)
  | .pow => .ok (left.pow right)

/-- The natural logarithm under the name of `function`. -/
def naturalLog (function : Builtin) (x : Float) : Except EvalError Float :=
  if x ≤ floatZero then .error (.logOfNonPositive function) else .ok x.log

/-- The value of a function of one argument; a function of two has none here. -/
def Builtin.unary? : Builtin → Option (Float → Except EvalError Float)
  | .sin => some fun x => .ok x.sin
  | .cos => some fun x => .ok x.cos
  | .tan => some fun x => .ok x.tan
  | .abs => some fun x => .ok x.abs
  | .sqrt => some fun x => if x < floatZero then .error .sqrtOfNegative else .ok x.sqrt
  | .log => some (naturalLog .log)
  | .ln => some (naturalLog .ln)
  | .pow => none

/-- Results nearer to zero than this are zero. -/
def zeroThreshold : Decimal :=
  ⟨1, -12⟩

/-- How many digits of a result are kept. -/
def resultDigits : Nat :=
  12

/-- A result as it is given out: zero if it is tiny, else rounded to its first digits. -/
def normalize (x : Float) : Except EvalError Float :=
  if infinityRank ≤ floatRank x then .error .notFinite
  else if floatRank x < zeroThreshold.rank then .ok floatZero
  else .ok (roundSignificant x resultDigits)

end Calculator
