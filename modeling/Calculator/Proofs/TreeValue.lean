import Mathlib.Data.List.Basic
import Calculator.Evaluation
import Calculator.Proofs.Outcome
import Calculator.Proofs.PostfixOrder

namespace Calculator

/-- What a call is refused with that has another number of arguments than its function takes. -/
def Builtin.argumentError (f : Builtin) (args : Nat) : EvalError :=
  if f = .pow then .powArity
  else if args = 0 then .missingArgument f
  else .tooManyArguments f

/-- The value of a function, once the number of arguments has been checked. -/
def Builtin.applyTo (f : Builtin) (args : List Float) : Except EvalError Float :=
  match f.unary?, args with
  | some value, [x] => value x
  | none, [base, exponent] => .ok (base.pow exponent)
  | _, args => .error (f.argumentError args.length)

mutual

/-- The value of a tree: left operand, right operand, operator; arguments from the left, then their
number, then the function. The first failure in that order is the failure of the tree. -/
def Expression.value : Expression → Except EvalError Float
  | .number value => .ok value
  | .negate operand => operand.value.map (- ·)
  | .binary op left right => do
    let l ← left.value
    let r ← right.value
    op.apply l r
  | .call function args => do
    let values ← argumentValues args
    function.applyTo values

def argumentValues : List Expression → Except EvalError (List Float)
  | [] => .ok []
  | t :: rest => do
    let value ← t.value
    let values ← argumentValues rest
    return value :: values

end

theorem argumentValues_length {args : List Expression} {values : List Float}
    (run : argumentValues args = .ok values) : values.length = args.length := by
  induction args generalizing values with
  | nil => cases run; rfl
  | cons t rest ih =>
    rw [argumentValues] at run
    obtain ⟨value, _, run⟩ := bind_eq_ok.mp run
    obtain ⟨later, others, run⟩ := bind_eq_ok.mp run
    cases run
    simp only [List.length_cons, ih others]

theorem Builtin.unary?_eq_none {f : Builtin} : f.unary? = none ↔ f = .pow := by
  cases f <;> simp [Builtin.unary?]

/-- A call with a wrong number of arguments is refused whatever values wait. -/
theorem arityError?_of_ne_arity {f : Builtin} {args : Nat} (wrong : args ≠ f.arity) (stack : ValueStack) :
    arityError? ⟨f, args⟩ stack = some (f.argumentError args) := by
  cases f with
  | pow =>
    have two : args ≠ 2 := wrong
    simp [arityError?, Builtin.argumentError, two]
  | sin | cos | tan | sqrt | log | ln | abs =>
    rcases args with _ | _ | args
    · rfl
    · exact absurd rfl wrong
    · simp [arityError?, Builtin.argumentError]

theorem applyCall_refused {f : Builtin} {args : Nat} (wrong : args ≠ f.arity) (stack : ValueStack) :
    applyCall ⟨f, args⟩ stack = (.error (f.argumentError args), stack) := by
  simp only [applyCall, arityError?_of_ne_arity wrong]

theorem step_call_refused {f : Builtin} {args : Nat} (wrong : args ≠ f.arity) (stack : ValueStack) :
    stack.step (.call ⟨f, args⟩) = .error (f.argumentError args) := by
  rw [ValueStack.step, applyCall_refused wrong]
  rfl

theorem Builtin.applyTo_refused {f : Builtin} {values : List Float} (wrong : values.length ≠ f.arity) :
    f.applyTo values = .error (f.argumentError values.length) := by
  unfold Builtin.applyTo
  split
  · rename_i one unary
    cases f with
    | pow => cases unary
    | sin | cos | tan | sqrt | log | ln | abs => exact absurd rfl wrong
  · rename_i none
    cases Builtin.unary?_eq_none.mp none
    exact absurd rfl wrong
  · rfl

/-- A call that is not refused takes as many of the last values as its function has arguments. -/
theorem applyCall_take {f : Builtin} {stack : ValueStack} (enough : f.arity ≤ stack.length) :
    applyCall ⟨f, f.arity⟩ stack = (f.applyTo (stack.take f.arity).reverse, stack.drop f.arity) := by
  cases f with
  | pow =>
    rcases stack with _ | ⟨exponent, _ | ⟨base, rest⟩⟩
    · cases enough
    · cases Nat.le_of_succ_le_succ enough
    · have found : ¬((2 : Nat) ≠ 2 ∨ (exponent :: base :: rest).length < 2) := by
        simp only [List.length_cons]
        omega
      simp only [applyCall, arityError?, Builtin.arity, found, if_false]
      rfl
  | sin | cos | tan | sqrt | log | ln | abs =>
    cases stack with
    | nil => cases enough
    | cons => rfl

/-- A call whose arguments are the last values takes exactly these, and it fails as the function does,
whatever waits below. -/
theorem step_call (f : Builtin) (values : List Float) (stack : ValueStack) :
    ValueStack.step (values.reverse ++ stack) (.call ⟨f, values.length⟩) =
      (f.applyTo values).map (· :: stack) := by
  by_cases counted : values.length = f.arity
  · have length : values.reverse.length = f.arity := List.length_reverse.trans counted
    have enough : f.arity ≤ (values.reverse ++ stack).length := by
      rw [List.length_append, length]
      exact Nat.le_add_right _ _
    rw [ValueStack.step, counted, applyCall_take enough, List.take_left' length, List.drop_left' length, List.reverse_reverse]
  · rw [step_call_refused counted, Builtin.applyTo_refused counted]
    rfl

theorem step_call_take {args : Nat} {stack : ValueStack} (f : Builtin) (enough : args ≤ stack.length) :
    stack.step (.call ⟨f, args⟩) = (f.applyTo (stack.take args).reverse).map (· :: stack.drop args) := by
  have counted : (stack.take args).reverse.length = args := by
    rw [List.length_reverse, List.length_take, Nat.min_eq_left enough]
  have stepped := step_call f (stack.take args).reverse (stack.drop args)
  rwa [counted, List.reverse_reverse, List.take_append_drop] at stepped

theorem run_append (stack : ValueStack) (tokens more : List Token) :
    ValueStack.run stack (tokens ++ more) = ValueStack.run stack tokens >>= (ValueStack.run · more) := by
  exact List.foldlM_append

theorem run_cons (stack : ValueStack) (token : Token) (tokens : List Token) :
    ValueStack.run stack (token :: tokens) = stack.step token >>= (ValueStack.run · tokens) := by
  exact List.foldlM_cons

theorem run_singleton (stack : ValueStack) (token : Token) :
    ValueStack.run stack [token] = stack.step token := by
  rw [run_cons]
  exact bind_pure (stack.step token)

mutual

/-- The postfix order of a tree adds the value of the tree to whatever waits and touches nothing
below. -/
theorem run_postorder (t : Expression) (stack : ValueStack) :
    ValueStack.run stack t.postorder = t.value.map (· :: stack) := by
  cases t with
  | number value => rfl
  | negate operand =>
    rw [Expression.postorder, run_append, run_postorder operand, Expression.value]
    cases operand.value with
    | error | ok => rfl
  | binary op left right =>
    rw [Expression.postorder, run_append, run_append, run_postorder left, Expression.value]
    cases left.value with
    | error => rfl
    | ok l =>
      change (ValueStack.run (l :: stack) right.postorder >>= _) = _
      rw [run_postorder right]
      cases right.value with
      | error => rfl
      | ok r => exact run_singleton (r :: l :: stack) (.operator op)
  | call function args =>
    rw [Expression.postorder, run_append, run_postorders args, Expression.value]
    cases values : argumentValues args with
    | error => rfl
    | ok values' =>
      rw [← argumentValues_length values]
      exact (run_singleton _ _).trans (step_call function values' stack)

theorem run_postorders (args : List Expression) (stack : ValueStack) :
    ValueStack.run stack (postorders args) = (argumentValues args).map (·.reverse ++ stack) := by
  cases args with
  | nil => rfl
  | cons t rest =>
    rw [postorders, run_append, run_postorder t, argumentValues]
    cases t.value with
    | error => rfl
    | ok value =>
      change ValueStack.run (value :: stack) (postorders rest) = _
      rw [run_postorders rest]
      cases argumentValues rest with
      | error => rfl
      | ok values => simp [Except.map, bind, Except.bind, pure, Except.pure]

end

theorem evalPostfix_postorder (t : Expression) : evalPostfix t.postorder = t.value := by
  rw [evalPostfix, run_postorder]
  cases t.value with
  | error | ok => rfl

/-- Only a sequence that is no postfix order of a tree has these errors. -/
def EvalError.isStructural : EvalError → Bool
  | .missingUnaryOperand | .insufficientOperands _ | .unknownToken _ | .invalidExpression => true
  | .divisionByZero | .powArity | .missingArgument _ | .tooManyArguments _ | .sqrtOfNegative
  | .logOfNonPositive _ | .notFinite => false

theorem Builtin.argumentError_not_structural (f : Builtin) (args : Nat) :
    (f.argumentError args).isStructural = false := by
  unfold Builtin.argumentError
  split
  · rfl
  · split
    · rfl
    · rfl

theorem naturalLog_not_structural {f : Builtin} {x : Float} {error : EvalError}
    (failed : naturalLog f x = .error error) : error.isStructural = false := by
  unfold naturalLog at failed
  split at failed
  · cases failed
    rfl
  · cases failed

theorem Operator.apply_not_structural {op : Operator} {left right : Float} {error : EvalError}
    (failed : op.apply left right = .error error) : error.isStructural = false := by
  cases op with
  | add | sub | mul | pow => cases failed
  | div =>
    simp only [Operator.apply] at failed
    split at failed
    · cases failed
      rfl
    · cases failed

theorem Builtin.applyTo_not_structural {f : Builtin} {values : List Float} {error : EvalError}
    (failed : f.applyTo values = .error error) : error.isStructural = false := by
  by_cases length : values.length = f.arity
  · cases f with
    | pow =>
      obtain ⟨base, exponent, rfl⟩ := List.length_eq_two.mp length
      cases failed
    | sin | cos | tan | abs =>
      obtain ⟨x, rfl⟩ := List.length_eq_one_iff.mp length
      cases failed
    | log | ln =>
      obtain ⟨x, rfl⟩ := List.length_eq_one_iff.mp length
      exact naturalLog_not_structural failed
    | sqrt =>
      obtain ⟨x, rfl⟩ := List.length_eq_one_iff.mp length
      simp only [Builtin.applyTo, Builtin.unary?] at failed
      split at failed
      · cases failed
        rfl
      · cases failed
  · rw [Builtin.applyTo_refused length] at failed
    cases failed
    exact f.argumentError_not_structural values.length

/-- A call finds fault with the number of its arguments or the function with their values. -/
theorem step_call_not_structural {f : Builtin} {args : Nat} {stack : ValueStack} {error : EvalError}
    (failed : stack.step (.call ⟨f, args⟩) = .error error) : error.isStructural = false := by
  by_cases counted : args = f.arity
  · by_cases enough : args ≤ stack.length
    · rw [step_call_take f enough, map_eq_error] at failed
      exact Builtin.applyTo_not_structural failed
    · subst counted
      cases f with
      | pow =>
        rcases stack with _ | ⟨exponent, _ | ⟨base, rest⟩⟩
        · cases failed; rfl
        · cases failed; rfl
        · exact absurd (Nat.le_add_left 2 rest.length) enough
      | sin | cos | tan | sqrt | log | ln | abs =>
        cases stack with
        | nil => cases failed; rfl
        | cons value rest => exact absurd (Nat.le_add_left 1 rest.length) enough
  · rw [step_call_refused counted] at failed
    cases failed
    exact f.argumentError_not_structural args

mutual

theorem Expression.value_not_structural (t : Expression) {error : EvalError}
    (failed : t.value = .error error) : error.isStructural = false := by
  cases t with
  | number => cases failed
  | negate operand =>
    rw [Expression.value, map_eq_error] at failed
    exact operand.value_not_structural failed
  | binary op left right =>
    rw [Expression.value] at failed
    rcases bind_eq_error.mp failed with first | ⟨l, _, failed⟩
    · exact left.value_not_structural first
    · rcases bind_eq_error.mp failed with second | ⟨r, _, applied⟩
      · exact right.value_not_structural second
      · exact Operator.apply_not_structural applied
  | call function args =>
    rw [Expression.value] at failed
    rcases bind_eq_error.mp failed with inner | ⟨values, _, applied⟩
    · exact argumentValues_not_structural args inner
    · exact Builtin.applyTo_not_structural applied

theorem argumentValues_not_structural (args : List Expression) {error : EvalError}
    (failed : argumentValues args = .error error) : error.isStructural = false := by
  cases args with
  | nil => cases failed
  | cons t rest =>
    rw [argumentValues] at failed
    rcases bind_eq_error.mp failed with first | ⟨value, _, failed⟩
    · exact t.value_not_structural first
    · rcases bind_eq_error.mp failed with others | ⟨values, _, failed⟩
      · exact argumentValues_not_structural rest others
      · cases failed

end

theorem normalize_not_structural {x : Float} {error : EvalError} (failed : normalize x = .error error) :
    error.isStructural = false := by
  unfold normalize at failed
  split at failed
  · cases failed
    rfl
  · split at failed
    · cases failed
    · cases failed

theorem evaluate_stages {source : String} {x : Float} (run : evaluate source = .ok x) :
    ∃ tokens output value, tokenize source = .ok tokens ∧ toPostfix tokens = .ok output ∧
      evalPostfix output = .ok value ∧ normalize value = .ok x := by
  rw [evaluate] at run
  obtain ⟨output, read, run⟩ := bind_eq_ok.mp run
  obtain ⟨tokens, lexed, converted⟩ := bind_eq_ok.mp read
  obtain ⟨value, evaluated, rounded⟩ := bind_eq_ok.mp run
  exact ⟨tokens, output, value, mapError_eq_ok.mp lexed, mapError_eq_ok.mp converted,
    mapError_eq_ok.mp evaluated, mapError_eq_ok.mp rounded⟩

/-- How an evaluation fails: in one of its stages, all those before it done. -/
inductive FailsIn (source : String) : Failure → Prop
  | lexing {error} : tokenize source = .error error → FailsIn source (.lexical error)
  | converting {tokens error} : tokenize source = .ok tokens → toPostfix tokens = .error error →
      FailsIn source (.syntactic error)
  | evaluating {tokens output error} : tokenize source = .ok tokens → toPostfix tokens = .ok output →
      evalPostfix output = .error error → FailsIn source (.arithmetic error)
  | rounding {tokens output value error} : tokenize source = .ok tokens → toPostfix tokens = .ok output →
      evalPostfix output = .ok value → normalize value = .error error → FailsIn source (.arithmetic error)

theorem evaluate_fails {source : String} {failure : Failure} (failed : evaluate source = .error failure) :
    FailsIn source failure := by
  rw [evaluate] at failed
  rcases bind_eq_error.mp failed with read | ⟨output, read, run⟩
  · rcases bind_eq_error.mp read with first | ⟨tokens, lexed, second⟩
    · obtain ⟨error, lexed, rfl⟩ := mapError_eq_error.mp first
      exact .lexing lexed
    · obtain ⟨error, converted, rfl⟩ := mapError_eq_error.mp second
      exact .converting (mapError_eq_ok.mp lexed) converted
  · obtain ⟨tokens, first, second⟩ := bind_eq_ok.mp read
    have lexed := mapError_eq_ok.mp first
    have converted := mapError_eq_ok.mp second
    rcases bind_eq_error.mp run with third | ⟨value, third, fourth⟩
    · obtain ⟨error, evaluated, rfl⟩ := mapError_eq_error.mp third
      exact .evaluating lexed converted evaluated
    · obtain ⟨error, rounded, rfl⟩ := mapError_eq_error.mp fourth
      exact .rounding lexed converted (mapError_eq_ok.mp third) rounded

/-- A text whose tokens the infix grammar derives has the value of its tree, rounded, or fails as its
tree fails. It never fails for want of operands, and a call with a wrong number of arguments is refused
by that number, whatever other values wait. -/
theorem evaluate_of_derives {source : String} {tokens : List Token} {t : Expression}
    (lexed : tokenize source = .ok tokens) (derived : Derives .expr tokens t) :
    evaluate source = (t.value >>= normalize).mapError .arithmetic ∧
    (∀ error, evaluate source = .error (.arithmetic error) → error.isStructural = false) ∧
    ∀ f args values stack, argumentValues args = .ok values → args.length ≠ f.arity →
      ValueStack.run stack (Expression.call f args).postorder = .error (f.argumentError args.length) := by
  have meaning : evaluate source = (t.value >>= normalize).mapError .arithmetic := by
    rw [evaluate, postfixOf, lexed]
    change ((toPostfix tokens).mapError Failure.syntactic >>= _) = _
    rw [toPostfix_of_derives derived]
    change ((evalPostfix t.postorder).mapError Failure.arithmetic >>= _) = _
    rw [evalPostfix_postorder]
    cases t.value with
    | error | ok => rfl
  refine ⟨meaning, ?_, ?_⟩
  · intro error failed
    rw [meaning] at failed
    obtain ⟨cause, failed, same⟩ := mapError_eq_error.mp failed
    cases same
    rcases bind_eq_error.mp failed with inner | ⟨x, _, rounded⟩
    · exact t.value_not_structural inner
    · exact normalize_not_structural rounded
  · intro f args values stack run wrong
    rw [run_postorder, Expression.value, run, ← argumentValues_length run]
    rw [← argumentValues_length run] at wrong
    change (f.applyTo values).map _ = _
    rw [Builtin.applyTo_refused wrong]
    rfl

theorem evaluate_of_derives_less_call :
    tokenize "-2 ^ 2 - pow(3)" = .ok [.operator .sub, .number 2, .operator .pow, .number 2, .operator .sub,
      .name "pow", .leftParen, .number 3, .rightParen] ∧
    Derives .expr [.operator .sub, .number 2, .operator .pow, .number 2, .operator .sub,
      .name "pow", .leftParen, .number 3, .rightParen]
      (.binary .sub (.binary .pow (.negate (.number 2)) (.number 2)) (.call .pow [.number 3])) ∧
    evaluate "-2 ^ 2 - pow(3)" = .error (.arithmetic .powArity) ∧
    ValueStack.run [7, 8] (Expression.call .pow [.number 3]).postorder = .error .powArity := by
  have lexed : tokenize "-2 ^ 2 - pow(3)" = .ok [.operator .sub, .number 2, .operator .pow, .number 2,
      .operator .sub, .name "pow", .leftParen, .number 3, .rightParen] := by decide +kernel
  have power : Derives .power [.operator .sub, .number 2, .operator .pow, .number 2] _ :=
    .raise (.sign (.primary (.number 2))) (.unary (.primary (.number 2)))
  have call : Derives .primary [.name "pow", .leftParen, .number 3, .rightParen] _ :=
    @Derives.call "pow" .pow _ _ [] (by decide) (.term (.power (.unary (.primary (.number 3))))) (by simp)
  have derived : Derives .expr [.operator .sub, .number 2, .operator .pow, .number 2, .operator .sub,
      .name "pow", .leftParen, .number 3, .rightParen] _ :=
    .sum (.inr rfl) (.term (.power power)) (.power (.unary (.primary call)))
  obtain ⟨meaning, _, refused⟩ := evaluate_of_derives lexed derived
  refine ⟨lexed, derived, ?_, ?_⟩
  · rw [meaning]
    decide +kernel
  · exact refused .pow [.number 3] [3] [7, 8] rfl (by decide)

end Calculator
