import Mathlib.Data.List.Chain
import Calculator.Proofs.Grammar

namespace Calculator

/-- Whether an operand may end with a token. -/
def Token.endsOperand : Token → Bool
  | .number _ | .rightParen => true
  | .name text => (constant? text).isSome
  | .operator _ | .negate | .leftParen | .separator | .call _ | .blank => false

/-- Whether an operand may start with a token, signs aside. -/
def Token.startsOperand : Token → Bool
  | .number _ | .name _ | .leftParen => true
  | .operator _ | .negate | .rightParen | .separator | .call _ | .blank => false

/-- Whether an operand has to stand directly before a token. A minus may be a sign. -/
def Token.followsOperand : Token → Bool
  | .operator op => op != .sub
  | .rightParen | .separator => true
  | .number _ | .name _ | .negate | .leftParen | .call _ | .blank => false

/-- An operand directly follows another. -/
def Token.exceeds (before token : Token) : Bool :=
  before.endsOperand && token.startsOperand

/-- No operand stands between two tokens although one has to. -/
def Token.lacks (before token : Token) : Bool :=
  !before.endsOperand && token.followsOperand

/-- How many operands directly follow another in a text that comes after `before`. -/
def extraOperands (before : Token) : List Token → Nat
  | [] => 0
  | token :: rest => (before.exceeds token).toNat + extraOperands token rest

/-- How many operands are missing in a text that comes after `before`. One is missing too if the text
ends without one. -/
def missingOperands (before : Token) : List Token → Nat
  | [] => (!before.endsOperand).toNat
  | token :: rest => (before.lacks token).toNat + missingOperands token rest

theorem endsOperand_function {name : String} {f : Builtin} (function : Builtin.ofName? name = some f) :
    (Token.name name).endsOperand = false := by
  cases known : constant? name with
  | none => simp only [Token.endsOperand, known, Option.isSome_none]
  | some value => rw [ofName_eq_none_of_constant known] at function; cases function

/-- No operand directly follows another. -/
def Apart (tokens : List Token) : Prop :=
  tokens.IsChain fun before after => before.exceeds after = false

theorem Apart.cons {token : Token} {tokens : List Token} (apart : Apart tokens)
    (free : token.endsOperand = false) : Apart (token :: tokens) := by
  refine List.isChain_cons.mpr ⟨fun next _ => ?_, apart⟩
  rw [Token.exceeds, free, Bool.false_and]

theorem Apart.append_cons {left right : List Token} {token : Token} (first : Apart left)
    (second : Apart (token :: right)) (free : token.startsOperand = false) : Apart (left ++ token :: right) := by
  refine List.isChain_append.mpr ⟨first, second, ?_⟩
  intro last _ next member
  cases Option.mem_some.mp member
  rw [Token.exceeds, free, Bool.and_false]

theorem Apart.operator {left right : List Token} (op : Operator) (first : Apart left) (second : Apart right) :
    Apart (left ++ .operator op :: right) :=
  first.append_cons (second.cons rfl) rfl

theorem Apart.closed {tokens : List Token} (apart : Apart tokens) :
    Apart (.leftParen :: (tokens ++ [.rightParen])) :=
  (apart.append_cons (List.isChain_singleton _) rfl).cons rfl

theorem Apart.arguments {tokens : List Token} {rest : List (List Token × Expression)} (first : Apart tokens)
    (others : ∀ argument ∈ rest, Apart argument.1) :
    Apart (tokens ++ rest.flatMap fun argument => .separator :: argument.1) := by
  induction rest generalizing tokens with
  | nil => simpa using first
  | cons argument rest ih =>
    have longer : Apart (tokens ++ .separator :: argument.1) :=
      first.append_cons ((others argument (List.mem_cons_self ..)).cons rfl) rfl
    have whole := ih longer fun other member => others other (List.mem_cons_of_mem _ member)
    simpa only [List.flatMap_cons, List.append_assoc, List.cons_append] using whole

/-- Two operands of an infix expression have an operator, a comma or a parenthesis between them. -/
theorem Derives.apart {stratum : Stratum} {tokens : List Token} {t : Expression}
    (derived : Derives stratum tokens t) : Apart tokens := by
  induction derived with
  | term _ ih | power _ ih | unary _ ih | primary _ ih => exact ih
  | sum _ _ _ left right | product _ _ _ left right | raise _ _ left right => exact left.operator _ right
  | sign _ ih => exact ih.cons rfl
  | number | constant => exact List.isChain_singleton _
  | group _ ih => exact ih.closed
  | emptyCall function => exact (Apart.closed .nil).cons (endsOperand_function function)
  | call function _ _ first others =>
    exact ((first.arguments others).closed).cons (endsOperand_function function)

theorem extraOperands_of_apart {before : Token} {tokens : List Token} (apart : Apart (before :: tokens)) :
    extraOperands before tokens = 0 := by
  induction tokens generalizing before with
  | nil => rfl
  | cons token rest ih =>
    obtain ⟨first, others⟩ := List.isChain_cons_cons.mp apart
    rw [extraOperands, first, ih others]
    rfl

theorem Derives.no_extraOperands {stratum : Stratum} {tokens : List Token} {t : Expression}
    (derived : Derives stratum tokens t) : extraOperands .leftParen tokens = 0 :=
  extraOperands_of_apart (derived.apart.cons rfl)

end Calculator
