import Calculator.Arithmetic
import Calculator.Token

namespace Calculator

/-- The operands that wait while a postfix sequence is evaluated, the last one first. -/
abbrev ValueStack :=
  List Float

/-- The two last values as left and right operand, and the others. -/
def ValueStack.popPair? : ValueStack → Option ((Float × Float) × ValueStack)
  | right :: left :: rest => some ((left, right), rest)
  | _ => none

/-- The error of a call whose written arguments are not what the function takes, or for which too
few values wait. -/
def arityError? (call : Call) (stack : ValueStack) : Option EvalError :=
  match call.function with
  | .pow =>
    if call.args ≠ 2 ∨ stack.length < 2 then some .powArity else none
  | function =>
    match call.args with
    | 0 => some (.missingArgument function)
    | 1 => if stack.isEmpty then some (.missingArgument function) else none
    | _ => some (.tooManyArguments function)

/-- The value of a call whose arguments are the last values of `stack`, and the values left. A call
that is refused for its arguments takes none of them. -/
def applyCall (call : Call) (stack : ValueStack) : Except EvalError Float × ValueStack :=
  match arityError? call stack with
  | some error => (.error error, stack)
  | none =>
    match call.function.unary?, stack with
    | some value, x :: rest => (value x, rest)
    | none, exponent :: base :: rest => (.ok (base.pow exponent), rest)
    | some _, [] => (.error (.missingArgument call.function), stack)
    | none, _ => (.error .powArity, stack)

/-- What can be done with waiting values, apart from evaluating a sequence. -/
inductive StackAction
  | push (value : Float)
  | pop
  | popPair
  | call (call : Call)
deriving DecidableEq

/-- What an action gives. -/
inductive StackAnswer
  | done
  | value (value : Option Float)
  | pair (values : Option (Float × Float))
  | result (result : Except EvalError Float)

/-- What an action gives, and the values that wait after it. The result of a call is not pushed. -/
def ValueStack.perform (stack : ValueStack) : StackAction → StackAnswer × ValueStack
  | .push value => (.done, value :: stack)
  | .pop => (.value stack.head?, stack.drop 1)
  | .popPair =>
    match stack.popPair? with
    | some (pair, rest) => (.pair (some pair), rest)
    | none => (.pair none, stack)
  | .call call =>
    let (result, rest) := applyCall call stack
    (.result result, rest)

/-- What one token of a postfix sequence does to the waiting values. -/
def ValueStack.step (stack : ValueStack) : Token → Except EvalError ValueStack
  | .number value => .ok (value :: stack)
  | .negate =>
    match stack with
    | value :: rest => .ok (-value :: rest)
    | [] => .error .missingUnaryOperand
  | .operator op =>
    match stack.popPair? with
    | some ((left, right), rest) => (op.apply left right).map (· :: rest)
    | none => .error (.insufficientOperands op)
  | .call call =>
    let (value, rest) := applyCall call stack
    value.map (· :: rest)
  | token => .error (.unknownToken token.text)

/-- The values that wait after a postfix sequence. -/
def ValueStack.run (stack : ValueStack) (tokens : List Token) : Except EvalError ValueStack :=
  tokens.foldlM ValueStack.step stack

/-- The value of a postfix sequence, not rounded. It has one if a single value is left. -/
def evalPostfix (tokens : List Token) : Except EvalError Float := do
  match ← ValueStack.run [] tokens with
  | [value] => return value
  | _ => .error .invalidExpression

end Calculator
