import Calculator.Proofs.TreeAssembly

namespace Calculator

/-!
A run that finds its values among its own works in the same way on top of any others. So a sequence that
has a value can be replaced by that value, wherever it stands.
-/

/-- Whether an error blames the values that an operation was given. The other errors blame how many there
are, or the sequence itself. -/
def EvalError.isDomain : EvalError → Bool
  | .divisionByZero | .sqrtOfNegative | .logOfNonPositive _ => true
  | .missingUnaryOperand | .insufficientOperands _ | .powArity | .missingArgument _ | .tooManyArguments _
  | .unknownToken _ | .invalidExpression | .notFinite => false

theorem Builtin.argumentError_not_domain (f : Builtin) (args : Nat) : (f.argumentError args).isDomain = false := by
  unfold Builtin.argumentError
  split
  · rfl
  · split
    · rfl
    · rfl

section Above

variable {stack : ValueStack} {token : Token}

/-- A token that finds its values does with them what it does with more values below. -/
theorem step_above (postfixed : token.isPostfix = true) (enough : token.takes ≤ stack.length) (below : ValueStack) :
    ValueStack.step (stack ++ below) token = (stack.step token).map (· ++ below) := by
  cases token with
  | number value => rfl
  | negate =>
    cases stack with
    | nil => cases enough
    | cons value rest => rfl
  | operator op =>
    rcases stack with _ | ⟨right, _ | ⟨left, rest⟩⟩
    · cases enough
    · cases Nat.le_of_succ_le_succ enough
    · change (op.apply left right).map (· :: (rest ++ below)) =
        ((op.apply left right).map (· :: rest)).map (· ++ below)
      cases op.apply left right with
      | error | ok => rfl
  | call call =>
    obtain ⟨f, args⟩ := call
    have inside : args ≤ stack.length := enough
    have more : args ≤ (stack ++ below).length := by
      rw [List.length_append]
      omega
    rw [step_call_take f inside, step_call_take f more, List.take_append_of_le_length inside,
      List.drop_append_of_le_length inside]
    cases f.applyTo (stack.take args).reverse with
    | error | ok => rfl
  | name | leftParen | rightParen | separator | blank => cases postfixed

/-- A call that is not refused finds all of its arguments. -/
theorem step_call_enough {f : Builtin} {args : Nat}
    (fair : ∀ error, stack.step (.call ⟨f, args⟩) = .error error → error.isDomain = true) :
    args ≤ stack.length := by
  by_cases counted : args = f.arity
  · subst counted
    cases f with
    | pow =>
      rcases stack with _ | ⟨exponent, _ | ⟨base, rest⟩⟩
      · cases fair _ rfl
      · cases fair _ rfl
      · exact Nat.le_add_left 2 rest.length
    | sin | cos | tan | sqrt | log | ln | abs =>
      cases stack with
      | nil => cases fair _ rfl
      | cons value rest => exact Nat.le_add_left 1 rest.length
  · have refused := fair _ (step_call_refused counted stack)
    rw [Builtin.argumentError_not_domain] at refused
    cases refused

theorem step_enough (fair : ∀ error, stack.step token = .error error → error.isDomain = true) :
    token.isPostfix = true ∧ token.takes ≤ stack.length := by
  cases token with
  | number => exact ⟨rfl, Nat.zero_le _⟩
  | negate =>
    cases stack with
    | nil => cases fair _ rfl
    | cons value rest => exact ⟨rfl, Nat.le_add_left 1 rest.length⟩
  | operator op =>
    rcases stack with _ | ⟨right, _ | ⟨left, rest⟩⟩
    · cases fair _ rfl
    · cases fair _ rfl
    · exact ⟨rfl, Nat.le_add_left 2 rest.length⟩
  | call call => exact ⟨rfl, step_call_enough fair⟩
  | name | leftParen | rightParen | separator | blank => cases fair _ rfl

/-- A run that ends with values, or finds fault with values only, does not look below its own ones. -/
theorem run_above {tokens : List Token}
    (fair : ∀ error, ValueStack.run stack tokens = .error error → error.isDomain = true) (below : ValueStack) :
    ValueStack.run (stack ++ below) tokens = (ValueStack.run stack tokens).map (· ++ below) := by
  induction tokens generalizing stack with
  | nil => rfl
  | cons token rest ih =>
    have first : ∀ error, stack.step token = .error error → error.isDomain = true := by
      intro error failed
      refine fair error ?_
      rw [run_cons, failed]
      rfl
    obtain ⟨postfixed, enough⟩ := step_enough first
    rw [run_cons, run_cons, step_above postfixed enough below]
    cases step : stack.step token with
    | error cause => rfl
    | ok next =>
      refine ih fun error failed => fair error ?_
      rw [run_cons, step]
      exact failed

theorem run_above_ok {tokens : List Token} {later : ValueStack} (run : ValueStack.run stack tokens = .ok later)
    (below : ValueStack) : ValueStack.run (stack ++ below) tokens = .ok (later ++ below) := by
  have fair : ∀ error, ValueStack.run stack tokens = .error error → error.isDomain = true := by
    intro error failed
    rw [run] at failed
    cases failed
  rw [run_above fair, run]
  rfl

end Above

/-- Only a single value is given out. -/
theorem evalPostfix_ok_iff {tokens : List Token} {x : Float} :
    evalPostfix tokens = .ok x ↔ ValueStack.run [] tokens = .ok [x] := by
  rw [evalPostfix, bind_eq_ok]
  constructor
  · rintro ⟨stack, ran, given⟩
    rcases stack with _ | ⟨value, _ | ⟨second, rest⟩⟩
    · cases given
    · cases given
      exact ran
    · cases given
  · intro ran
    exact ⟨[x], ran, rfl⟩

/-- What has a value by itself puts it on whatever waits. -/
theorem run_value {tokens : List Token} {x : Float} (valued : evalPostfix tokens = .ok x) (stack : ValueStack) :
    ValueStack.run stack tokens = .ok (x :: stack) :=
  run_above_ok (evalPostfix_ok_iff.mp valued) stack

/-- What fails in a run fails in the evaluation, and a fault of values has no other cause. -/
theorem evalPostfix_domain_iff {tokens : List Token} {error : EvalError} (domain : error.isDomain = true) :
    evalPostfix tokens = .error error ↔ ValueStack.run [] tokens = .error error := by
  rw [evalPostfix, bind_eq_error]
  constructor
  · rintro (failed | ⟨stack, _, given⟩)
    · exact failed
    · rcases stack with _ | ⟨value, _ | ⟨second, rest⟩⟩
      · cases given
        cases domain
      · cases given
      · cases given
        cases domain
  · exact .inl

/-- Parts that do the same with whatever values wait can stand for each other in every sequence. -/
theorem evalPostfix_congr {tokens others : List Token}
    (alike : ∀ stack, ValueStack.run stack tokens = ValueStack.run stack others) (before after : List Token) :
    evalPostfix (before ++ tokens ++ after) = evalPostfix (before ++ others ++ after) := by
  have runs : ValueStack.run [] (before ++ tokens) = ValueStack.run [] (before ++ others) := by
    rw [run_append, run_append]
    exact bind_congr alike
  have whole : ValueStack.run [] (before ++ tokens ++ after) = ValueStack.run [] (before ++ others ++ after) := by
    rw [run_append, runs, ← run_append]
  rw [evalPostfix, whole, evalPostfix]

/-- A part of a sequence that has a value by itself can be replaced by this value, in whatever sequence it
stands. And where its own evaluation finds fault with a value, the whole fails in the same way, unless the
tokens before it have failed already. -/
theorem evalPostfix_replace (before tokens after : List Token) :
    (∀ x, evalPostfix tokens = .ok x →
      evalPostfix (before ++ tokens ++ after) = evalPostfix (before ++ [.number x] ++ after)) ∧
    ∀ error stack, error.isDomain = true → evalPostfix tokens = .error error →
      ValueStack.run [] before = .ok stack → evalPostfix (before ++ tokens ++ after) = .error error := by
  refine ⟨fun x valued => ?_, fun error stack domain failed ran => ?_⟩
  · have alike : ∀ stack, ValueStack.run stack tokens = ValueStack.run stack [.number x] := run_value valued
    exact evalPostfix_congr alike before after
  · have alone := (evalPostfix_domain_iff domain).mp failed
    have fair : ∀ cause, ValueStack.run [] tokens = .error cause → cause.isDomain = true := by
      intro cause failed
      rw [alone] at failed
      cases failed
      exact domain
    have inside : ValueStack.run stack tokens = .error error := by
      have above := run_above fair stack
      rw [alone] at above
      exact above
    have reached : ValueStack.run [] (before ++ tokens) = .error error := by
      rw [run_append, ran]
      exact inside
    refine (evalPostfix_domain_iff domain).mpr ?_
    rw [run_append, reached]
    rfl

theorem evalPostfix_replace_negative_zero :
    evalPostfix [.number 0, .negate] = .ok (-0) ∧
    evalPostfix [.number 3, .number 0, .negate, .operator .div] = evalPostfix [.number 3, .number (-0), .operator .div] ∧
    evalPostfix [.number 0, .negate, .call ⟨.log, 1⟩] = .error (.logOfNonPositive .log) ∧
    ValueStack.run [] [.number 3, .number 4] = .ok [4, 3] ∧
    evalPostfix [.number 3, .number 4, .number 0, .negate, .call ⟨.log, 1⟩, .separator] =
      .error (.logOfNonPositive .log) := by
  have value : evalPostfix [.number 0, .negate] = .ok (-0) := by decide +kernel
  have fails : evalPostfix [.number 0, .negate, .call ⟨.log, 1⟩] = .error (.logOfNonPositive .log) := by
    decide +kernel
  have waits : ValueStack.run [] [.number 3, .number 4] = .ok [4, 3] := rfl
  have quotient := (evalPostfix_replace [.number 3] [.number 0, .negate] [.operator .div]).1 (-0) value
  have logarithm := (evalPostfix_replace [.number 3, .number 4] [.number 0, .negate, .call ⟨.log, 1⟩]
    [.separator]).2 _ _ rfl fails waits
  exact ⟨value, quotient, fails, waits, logarithm⟩

end Calculator
