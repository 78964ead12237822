import Calculator.Lexeme
import Calculator.Log
import Calculator.Postfix
import Calculator.Text.Quoted
import Calculator.ValueStack

namespace Calculator

/-- The part of an evaluation that fails. -/
inductive Stage
  | lexical
  | syntactic
  | arithmetic
deriving DecidableEq, Repr

/-- How a stage is named to a reader. -/
def Stage.title : Stage → String
  | .lexical => "lex error"
  | .syntactic => "syntax error"
  | .arithmetic => "evaluation error"

/-- The word for a stage in written entries. -/
def Stage.word : Stage → String
  | .lexical => "lex"
  | .syntactic => "syntax"
  | .arithmetic => "eval"

/-- Why an expression has no value. -/
inductive Failure
  | lexical (error : LexError)
  | syntactic (error : SyntaxError)
  | arithmetic (error : EvalError)
deriving DecidableEq, Repr

/-- The part that failed. -/
def Failure.stage : Failure → Stage
  | .lexical _ => .lexical
  | .syntactic _ => .syntactic
  | .arithmetic _ => .arithmetic

/-- What a reader is told. -/
def Failure.message : Failure → String
  | .lexical error => error.message
  | .syntactic error => error.message
  | .arithmetic error => error.message

/-- The tokens of an expression in postfix order. -/
def postfixOf (source : String) : Except Failure (List Token) := do
  let tokens ← (tokenize source).mapError .lexical
  (toPostfix tokens).mapError .syntactic

/-- The value of an expression, rounded. -/
def evaluate (source : String) : Except Failure Float := do
  let tokens ← postfixOf source
  let value ← (evalPostfix tokens).mapError .arithmetic
  (normalize value).mapError .arithmetic

/-- What an evaluation logs: a line for the tokens and one for their postfix order, as far as it
gets. -/
def evaluationLog (source : String) : List LogLine :=
  match tokenize source with
  | .error _ => []
  | .ok tokens =>
    ⟨.debug, "tokenized " ++ quoted source ++ " into " ++ tokens.length.repr ++ " tokens"⟩ ::
      match toPostfix tokens with
      | .error _ => []
      | .ok reordered => [⟨.debug, "postfix: " ++ tokensText reordered⟩]

end Calculator
