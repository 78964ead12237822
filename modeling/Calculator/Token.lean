import Calculator.Builtin
import Calculator.Number.Style
import Calculator.Operator

namespace Calculator

/-- A function applied to the operands before it. `args` counts the arguments
written in the call, which need not be the number that the function takes. -/
structure Call where
  function : Builtin
  args : Nat
deriving DecidableEq

/-- The parts of an expression, in infix or in postfix order. Scanning yields neither `negate` nor
`call`, which belong to postfix order, nor `blank`. -/
inductive Token
  | number (value : Float)
  | name (text : String)
  | operator (op : Operator)
  | negate
  | leftParen
  | rightParen
  | separator
  | call (call : Call)
  | blank
deriving DecidableEq

/-- How a token is shown. -/
def Token.text : Token → String
  | .number value => plainStyle.text value
  | .name text => text
  | .operator op => op.symbol.toString
  | .negate => "neg"
  | .leftParen => "("
  | .rightParen => ")"
  | .separator => ","
  | .call ⟨function, args⟩ => function.name ++ "/" ++ args.repr
  | .blank => ""

/-- Tokens shown in a row, with a space between two. -/
def tokensText (tokens : List Token) : String :=
  " ".intercalate (tokens.map Token.text)

end Calculator
