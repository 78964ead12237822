import Calculator.Token

namespace Calculator

/-- What an expression says once its parentheses have done their work. -/
inductive Expression
  | number (value : Float)
  | negate (operand : Expression)
  | binary (op : Operator) (left right : Expression)
  | call (function : Builtin) (args : List Expression)

mutual

/-- Operands before their operator, left before right, and arguments before their call, which
counts them. -/
def Expression.postorder : Expression → List Token
  | .number value => [.number value]
  | .negate operand => operand.postorder ++ [.negate]
  | .binary op left right => left.postorder ++ right.postorder ++ [.operator op]
  | .call function args => postorders args ++ [.call ⟨function, args.length⟩]

def postorders : List Expression → List Token
  | [] => []
  | t :: rest => t.postorder ++ postorders rest

end

/-- The nonterminals of the infix grammar. -/
inductive Stratum
  | expr
  | term
  | power
  | unary
  | primary

/-- The infix grammar with the tree of each derivation. Sums and products are left recursive, powers
right recursive, and a sign binds tighter than every operator between two operands. -/
inductive Derives : Stratum → List Token → Expression → Prop
  | term {tokens t} : Derives .term tokens t → Derives .expr tokens t
  | sum {op left right l r} : op = .add ∨ op = .sub → Derives .expr left l → Derives .term right r →
      Derives .expr (left ++ .operator op :: right) (.binary op l r)
  | power {tokens t} : Derives .power tokens t → Derives .term tokens t
  | product {op left right l r} : op = .mul ∨ op = .div → Derives .term left l →
      Derives .power right r → Derives .term (left ++ .operator op :: right) (.binary op l r)
  | unary {tokens t} : Derives .unary tokens t → Derives .power tokens t
  | raise {left right l r} : Derives .unary left l → Derives .power right r →
      Derives .power (left ++ .operator .pow :: right) (.binary .pow l r)
  | primary {tokens t} : Derives .primary tokens t → Derives .unary tokens t
  | sign {tokens t} : Derives .unary tokens t →
      Derives .unary (.operator .sub :: tokens) (.negate t)
  | number (value) : Derives .primary [.number value] (.number value)
  | constant {name value} : constant? name = some value →
      Derives .primary [.name name] (.number value)
  | group {tokens t} : Derives .expr tokens t →
      Derives .primary (.leftParen :: (tokens ++ [.rightParen])) t
  | emptyCall {name f} : Builtin.ofName? name = some f →
      Derives .primary [.name name, .leftParen, .rightParen] (.call f [])
  | call {name f tokens t} {rest : List (List Token × Expression)} :
      Builtin.ofName? name = some f → Derives .expr tokens t →
      (∀ argument ∈ rest, Derives .expr argument.1 argument.2) →
      Derives .primary
        (.name name :: .leftParen ::
          (tokens ++ rest.flatMap (fun argument => .separator :: argument.1) ++ [.rightParen]))
        (.call f (t :: rest.map Prod.snd))

/-- Functions and constants have different names. -/
theorem ofName_eq_none_of_constant {name : String} {value : Float}
    (known : constant? name = some value) : Builtin.ofName? name = none := by
  unfold constant? at known
  split at known
  · rename_i same
    subst same
    decide
  · split at known
    · rename_i same
      subst same
      decide
    · simp at known

end Calculator
