import Calculator.Token

namespace Calculator

/-- Why tokens have no postfix order. -/
inductive SyntaxError
  | unbalancedParentheses
  | misplacedSeparator
  | unknownIdentifier (name : String)
  | expectedArguments (name : String)
deriving DecidableEq, Repr

/-- What a reader is told. -/
def SyntaxError.message : SyntaxError → String
  | .unbalancedParentheses => "unbalanced parentheses"
  | .misplacedSeparator => "misplaced separator"
  | .unknownIdentifier name => "unknown identifier: " ++ name
  | .expectedArguments name => "expected '(' after " ++ name

/-- What waits for its operands or for its closing parenthesis. A group is an open parenthesis;
`call` tells that it opens the arguments of the function below it, and `separators` counts the
commas met directly inside. -/
inductive Pending
  | binary (op : Operator)
  | negate
  | function (f : Builtin)
  | group (call : Bool) (separators : Nat)
deriving DecidableEq, Repr

/-- How tightly an entry binds. Functions and groups bind nothing. -/
def Pending.precedence? : Pending → Option Nat
  | .binary op => some op.precedence
  | .negate => some negatePrecedence
  | .function _ => none
  | .group .. => none

/-- Whether an entry is an open parenthesis. -/
def Pending.isGroup : Pending → Bool
  | .group .. => true
  | .binary _ | .negate | .function _ => false

/-- What an entry becomes in the postfix order when it is taken off. -/
def Pending.flush : Pending → List Token
  | .binary op => [.operator op]
  | .negate => [.negate]
  | .function f => [.call ⟨f, f.arity⟩]
  | .group .. => []

/-- Whether `op` has to wait for an entry before it: the entry binds tighter, or as tightly and
`op` groups from the left. -/
def Pending.goesBefore (entry : Pending) (op : Operator) : Bool :=
  match entry.precedence? with
  | some precedence =>
    if op.groupsRight then op.precedence < precedence else op.precedence ≤ precedence
  | none => false

/-- A conversion under way. Entries wait in `pending`, the latest first. -/
structure Conversion where
  pending : List Pending := []
  /-- Whether an operand comes next, so that a minus is a sign. -/
  expectsOperand : Bool := true
  /-- Whether the token before was an opening parenthesis. -/
  justOpened : Bool := false
  /-- Whether the next opening parenthesis belongs to a function. -/
  opensCall : Bool := false
deriving DecidableEq, Repr

/-- A binary operator lets the entries that go before it leave, then waits itself. -/
def pushBinary (op : Operator) (pending : List Pending) : List Pending × List Token :=
  (.binary op :: pending.dropWhile (·.goesBefore op),
    (pending.takeWhile (·.goesBefore op)).flatMap Pending.flush)

/-- A comma ends an argument: all entries inside the innermost group leave. That group has to be
the argument list of a call. -/
def separate (pending : List Pending) : Except SyntaxError (List Pending × List Token) :=
  match pending.dropWhile (!·.isGroup) with
  | .group true separators :: rest =>
    .ok (.group true (separators + 1) :: rest,
      (pending.takeWhile (!·.isGroup)).flatMap Pending.flush)
  | _ => .error .misplacedSeparator

/-- The call that the end of an argument list completes; `below` is what waits under the list. A
list with nothing in it has no arguments, any other one more than it has commas. -/
def endCall (empty : Bool) (separators : Nat) (below : List Pending) : List Pending × List Token :=
  match below with
  | .function f :: rest => (rest, [.call ⟨f, if empty then 0 else separators + 1⟩])
  | below => (below.drop 1, [])

/-- A closing parenthesis ends the innermost group. All entries inside leave, then the call that
the group belongs to. `empty` tells that the group has just been opened. -/
def close (empty : Bool) (pending : List Pending) :
    Except SyntaxError (List Pending × List Token) :=
  let inside := (pending.takeWhile (!·.isGroup)).flatMap Pending.flush
  match pending.dropWhile (!·.isGroup) with
  | .group true separators :: below =>
    let (rest, call) := endCall empty separators below
    .ok (rest, inside ++ call)
  | .group false _ :: below => .ok (below, inside)
  | _ => .error .unbalancedParentheses

/-- At the end every operator leaves. An entry of another kind was never closed. -/
def finish (pending : List Pending) : Except SyntaxError (List Token) :=
  if pending.all (·.precedence?.isSome) then .ok (pending.flatMap Pending.flush)
  else .error .unbalancedParentheses

/-- What a name does: a function waits for the argument list that has to open right after it, and
a constant stands for its value. -/
def Conversion.readName (state : Conversion) (text : String) (next : Option Token) :
    Except SyntaxError (Conversion × List Token) :=
  match Builtin.ofName? text with
  | some f =>
    if next = some .leftParen then
      .ok ({ state with pending := .function f :: state.pending, opensCall := true }, [])
    else .error (.expectedArguments text)
  | none =>
    match constant? text with
    | some value => .ok ({ state with expectsOperand := false }, [.number value])
    | none => .error (.unknownIdentifier text)

/-- What one token does, given the one after it: the state it leads to, apart from `justOpened`,
and the tokens that it adds to the postfix order. -/
def Conversion.read (state : Conversion) (token : Token) (next : Option Token) :
    Except SyntaxError (Conversion × List Token) :=
  match token with
  | .number _ | .call _ => .ok ({ state with expectsOperand := false }, [token])
  | .name text => state.readName text next
  | .negate => .ok ({ state with pending := .negate :: state.pending }, [])
  | .operator op =>
    if op = .sub ∧ state.expectsOperand then
      .ok ({ state with pending := .negate :: state.pending }, [])
    else
      let (pending, output) := pushBinary op state.pending
      .ok ({ state with pending := pending, expectsOperand := true }, output)
  | .leftParen =>
    .ok ({ state with
      pending := .group state.opensCall 0 :: state.pending
      opensCall := false
      expectsOperand := true }, [])
  | .rightParen => do
    let (pending, output) ← close state.justOpened state.pending
    return ({ state with pending := pending, expectsOperand := false }, output)
  | .separator => do
    let (pending, output) ← separate state.pending
    return ({ state with pending := pending, expectsOperand := true }, output)
  | .blank => .ok (state, [])

/-- One step of a conversion. -/
def Conversion.step (state : Conversion) (token : Token) (next : Option Token) :
    Except SyntaxError (Conversion × List Token) := do
  let (state, output) ← state.read token next
  return ({ state with justOpened := token == .leftParen }, output)

/-- The postfix order of `tokens`, from a state on. -/
def Conversion.run (state : Conversion) : List Token → Except SyntaxError (List Token)
  | [] => finish state.pending
  | token :: rest => do
    let (state, output) ← state.step token rest.head?
    let outputs ← state.run rest
    return output ++ outputs

/-- Reorders infix tokens to postfix: operands in their order, each operator after its operands and
each call after its arguments. -/
def toPostfix (tokens : List Token) : Except SyntaxError (List Token) :=
  Conversion.run {} tokens

end Calculator
