import Calculator.Proofs.RunFrame

namespace Calculator

/-!
Values wait in the order in which they were pushed, and an action only removes those that it works on, from the
end. An action that does not find them, and a call that counts other arguments than its function has, remove none.
-/

/-- How many values an action works on. -/
def StackAction.demand : StackAction → Nat
  | .push _ => 0
  | .pop => 1
  | .popPair => 2
  | .call ⟨f, _⟩ => f.arity

/-- Whether an action is carried out where so many values wait. -/
def StackAction.Served (height : Nat) : StackAction → Prop
  | .call ⟨f, args⟩ => args = f.arity ∧ f.arity ≤ height
  | action => action.demand ≤ height

def StackAction.pushed : StackAction → List Float
  | .push value => [value]
  | .pop | .popPair | .call _ => []

/-- What an action gives that is carried out on these values, of which the last one comes first. -/
def StackAction.answer (taken : List Float) : StackAction → StackAnswer
  | .push _ => .done
  | .pop => .value taken.head?
  | .popPair => .pair ((ValueStack.popPair? taken).map Prod.fst)
  | .call ⟨f, _⟩ => .result (f.applyTo taken.reverse)

/-- The error of a call with so many arguments that is not carried out. -/
def Builtin.refusal (f : Builtin) (args : Nat) : EvalError :=
  if f = .pow then .powArity
  else if args ≤ 1 then .missingArgument f
  else .tooManyArguments f

/-- What an action gives that is not carried out. -/
def StackAction.refusal : StackAction → StackAnswer
  | .push _ => .done
  | .pop => .value none
  | .popPair => .pair none
  | .call ⟨f, args⟩ => .result (.error (f.refusal args))

/-- Whether an error blames the arguments of a call, be it those written or those that wait. -/
def EvalError.isRefusal : EvalError → Bool
  | .powArity | .missingArgument _ | .tooManyArguments _ => true
  | .missingUnaryOperand | .insufficientOperands _ | .divisionByZero | .sqrtOfNegative | .logOfNonPositive _
  | .unknownToken _ | .invalidExpression | .notFinite => false

/-! ### One action -/

theorem EvalError.isDomain_not_isRefusal {error : EvalError} (domain : error.isDomain = true) : error.isRefusal = false := by
  cases error with
  | divisionByZero | sqrtOfNegative | logOfNonPositive => rfl
  | missingUnaryOperand | insufficientOperands | powArity | missingArgument | tooManyArguments | unknownToken
  | invalidExpression | notFinite => cases domain

theorem Builtin.refusal_isRefusal (f : Builtin) (args : Nat) : (f.refusal args).isRefusal = true := by
  unfold Builtin.refusal
  split
  · rfl
  · split <;> rfl

/-- With all of its arguments a function finds fault with values only. -/
theorem Builtin.applyTo_isDomain {f : Builtin} {values : List Float} {error : EvalError}
    (counted : values.length = f.arity) (failed : f.applyTo values = .error error) : error.isDomain = true := by
  cases f with
  | pow =>
    obtain ⟨base, exponent, rfl⟩ := List.length_eq_two.mp counted
    cases failed
  | sin | cos | tan | abs =>
    obtain ⟨x, rfl⟩ := List.length_eq_one_iff.mp counted
    cases failed
  | sqrt | log | ln =>
    obtain ⟨x, rfl⟩ := List.length_eq_one_iff.mp counted
    simp only [Builtin.applyTo, Builtin.unary?, naturalLog] at failed
    split at failed
    · cases failed
      rfl
    · cases failed

theorem applyCall_unserved {f : Builtin} {args : Nat} {stack : ValueStack}
    (unserved : args ≠ f.arity ∨ stack.length < f.arity) : applyCall ⟨f, args⟩ stack = (.error (f.refusal args), stack) := by
  have refused : arityError? ⟨f, args⟩ stack = some (f.refusal args) := by
    cases f with
    | pow => exact if_pos unserved
    | sin | cos | tan | sqrt | log | ln | abs =>
      rcases args with _ | _ | args
      · rfl
      · have few := unserved.resolve_left fun wrong => wrong rfl
        rw [List.length_eq_zero_iff.mp (Nat.lt_one_iff.mp few)]
        rfl
      · simp [arityError?, Builtin.refusal]
  simp only [applyCall, refused]

section

variable {stack : ValueStack} {action : StackAction}

theorem perform_served (served : action.Served stack.length) :
    stack.perform action = (action.answer (stack.take action.demand), action.pushed ++ stack.drop action.demand) := by
  cases action with
  | push value => rfl
  | pop =>
    cases stack with
    | nil => cases served
    | cons => rfl
  | popPair =>
    rcases stack with _ | ⟨right, _ | ⟨left, rest⟩⟩
    · cases served
    · cases Nat.le_of_succ_le_succ served
    · rfl
  | call call =>
    obtain ⟨f, args⟩ := call
    obtain ⟨rfl, enough⟩ : args = f.arity ∧ f.arity ≤ stack.length := served
    rw [ValueStack.perform, applyCall_take enough]
    rfl

theorem perform_unserved (unserved : ¬action.Served stack.length) : stack.perform action = (action.refusal, stack) := by
  cases action with
  | push => exact absurd (Nat.zero_le _) unserved
  | pop =>
    cases stack with
    | nil => rfl
    | cons value rest => exact absurd (Nat.le_add_left 1 rest.length) unserved
  | popPair =>
    rcases stack with _ | ⟨right, _ | ⟨left, rest⟩⟩
    · rfl
    · rfl
    · exact absurd (Nat.le_add_left 2 rest.length) unserved
  | call call =>
    obtain ⟨f, args⟩ := call
    have refused : args ≠ f.arity ∨ stack.length < f.arity := by
      rcases not_and_or.mp unserved with other | few
      · exact .inl other
      · exact .inr (Nat.lt_of_not_le few)
    rw [ValueStack.perform, applyCall_unserved refused]
    rfl

/-- A call is refused exactly if it counts other arguments than its function has, or if too few values wait. -/
theorem perform_call_refused {f : Builtin} {args : Nat} {error : EvalError} (refusal : error.isRefusal = true) :
    (stack.perform (.call ⟨f, args⟩)).1 = .result (.error error) ↔
      (args ≠ f.arity ∨ stack.length < f.arity) ∧ error = f.refusal args := by
  by_cases served : args = f.arity ∧ f.arity ≤ stack.length
  · obtain ⟨rfl, enough⟩ := served
    have length : (stack.take f.arity).reverse.length = f.arity := by
      rw [List.length_reverse, List.length_take, Nat.min_eq_left enough]
    have given : (stack.perform (.call ⟨f, f.arity⟩)).1 = .result (f.applyTo (stack.take f.arity).reverse) := by
      rw [ValueStack.perform, applyCall_take enough]
    rw [given]
    constructor
    · intro same
      injection same with failed
      rw [EvalError.isDomain_not_isRefusal (Builtin.applyTo_isDomain length failed)] at refusal
      cases refusal
    · rintro ⟨other | few, _⟩
      · exact absurd rfl other
      · exact absurd enough (Nat.not_le.mpr few)
  · have unserved : args ≠ f.arity ∨ stack.length < f.arity := by omega
    have given : (stack.perform (.call ⟨f, args⟩)).1 = .result (.error (f.refusal args)) := by
      rw [ValueStack.perform, applyCall_unserved unserved]
    rw [given]
    constructor
    · intro same
      cases same
      exact ⟨unserved, rfl⟩
    · rintro ⟨_, rfl⟩
      rfl

end

/-- What holds of each further action where these values wait, the last one first. -/
structure StackLaw (stack : ValueStack) : Prop where
  push : ∀ value, stack.perform (.push value) = (.done, value :: stack)
  pop : ∀ value rest, stack = value :: rest → stack.perform .pop = (.value (some value), rest)
  popEmpty : stack = [] → stack.perform .pop = (.value none, stack)
  pair : ∀ right left rest, stack = right :: left :: rest →
    stack.perform .popPair = (.pair (some (left, right)), rest)
  pairShort : stack.length < 2 → stack.perform .popPair = (.pair none, stack)
  refused_iff : ∀ f args,
    (∃ error, error.isRefusal = true ∧ (stack.perform (.call ⟨f, args⟩)).1 = .result (.error error)) ↔
      args ≠ f.arity ∨ stack.length < f.arity
  refused : ∀ f args error, error.isRefusal = true →
    (stack.perform (.call ⟨f, args⟩)).1 = .result (.error error) → (stack.perform (.call ⟨f, args⟩)).2 = stack
  powArity_iff : ∀ args,
    (stack.perform (.call ⟨.pow, args⟩)).1 = .result (.error .powArity) ↔ args ≠ 2 ∨ stack.length < 2
  missing_iff : ∀ f args, f.arity = 1 →
    ((stack.perform (.call ⟨f, args⟩)).1 = .result (.error (.missingArgument f)) ↔ args = 0 ∨ args = 1 ∧ stack = [])
  tooMany_iff : ∀ f args, f.arity = 1 →
    ((stack.perform (.call ⟨f, args⟩)).1 = .result (.error (.tooManyArguments f)) ↔ 1 < args)
  /-- Whatever else a call gives, it gives it for the last values alone, and takes these. -/
  applied : ∀ f, f.arity ≤ stack.length → ∃ result,
    (∀ error, result = .error error → error.isDomain = true) ∧
    stack.perform (.call ⟨f, f.arity⟩) = (.result result, stack.drop f.arity) ∧
    ∀ rest, ValueStack.perform (stack.take f.arity ++ rest) (.call ⟨f, f.arity⟩) = (.result result, rest)
  power : ∀ exponent base rest, stack = exponent :: base :: rest →
    stack.perform (.call ⟨.pow, 2⟩) = (.result (.ok (base.pow exponent)), rest)

theorem Builtin.ne_pow_of_arity {f : Builtin} (one : f.arity = 1) : f ≠ .pow := by
  rintro rfl
  cases one

theorem perform_call_applied (f : Builtin) {stack : ValueStack} (enough : f.arity ≤ stack.length) :
    ∃ result, (∀ error, result = .error error → error.isDomain = true) ∧
      stack.perform (.call ⟨f, f.arity⟩) = (.result result, stack.drop f.arity) ∧
      ∀ rest, ValueStack.perform (stack.take f.arity ++ rest) (.call ⟨f, f.arity⟩) = (.result result, rest) := by
  have length : (stack.take f.arity).length = f.arity := List.length_take.trans (Nat.min_eq_left enough)
  refine ⟨f.applyTo (stack.take f.arity).reverse, fun error failed => ?_, ?_, fun rest => ?_⟩
  · exact Builtin.applyTo_isDomain (List.length_reverse.trans length) failed
  · rw [ValueStack.perform, applyCall_take enough]
  · have above : f.arity ≤ (stack.take f.arity ++ rest).length := by
      rw [List.length_append, length]
      exact Nat.le_add_right _ _
    rw [ValueStack.perform, applyCall_take above, List.take_left' length, List.drop_left' length]

theorem stackLaw (stack : ValueStack) : StackLaw stack where
  push _ := rfl
  pop value rest := by
    rintro rfl
    rfl
  popEmpty := by
    rintro rfl
    rfl
  pair right left rest := by
    rintro rfl
    rfl
  pairShort few := perform_unserved (Nat.not_le.mpr few)
  refused_iff f args := by
    constructor
    · rintro ⟨error, refusal, given⟩
      exact ((perform_call_refused refusal).mp given).1
    · intro unserved
      have refusal := f.refusal_isRefusal args
      exact ⟨_, refusal, (perform_call_refused refusal).mpr ⟨unserved, rfl⟩⟩
  refused f args error refusal given := by
    obtain ⟨unserved, _⟩ := (perform_call_refused refusal).mp given
    rw [ValueStack.perform, applyCall_unserved unserved]
  powArity_iff args := by
    rw [perform_call_refused rfl]
    exact and_iff_left rfl
  missing_iff f args one := by
    rw [perform_call_refused rfl, Builtin.refusal, if_neg (Builtin.ne_pow_of_arity one), one, ← List.length_eq_zero_iff]
    split
    · next few =>
      simp only [and_true]
      omega
    · next many =>
      simp only [reduceCtorEq, and_false, false_iff]
      omega
  tooMany_iff f args one := by
    rw [perform_call_refused rfl, Builtin.refusal, if_neg (Builtin.ne_pow_of_arity one), one]
    split
    · next few =>
      simp only [reduceCtorEq, and_false, false_iff]
      omega
    · next many =>
      simp only [and_true]
      omega
  applied f := perform_call_applied f
  power exponent base rest := by
    rintro rfl
    have enough : Builtin.pow.arity ≤ (exponent :: base :: rest).length := Nat.le_add_left 2 rest.length
    exact congrArg (fun made : Except EvalError Float × ValueStack => (StackAnswer.result made.1, made.2)) (applyCall_take enough)

/-! ### Actions in a row -/

/-- The answers to actions in a row, and the values that wait after them. -/
def ValueStack.performAll (stack : ValueStack) : List StackAction → List StackAnswer × ValueStack
  | [] => ([], stack)
  | action :: rest =>
    let (answer, next) := stack.perform action
    let (answers, last) := ValueStack.performAll next rest
    (answer :: answers, last)

/-- How many values have been taken, as the answer tells. -/
def StackAction.taken : StackAction → StackAnswer → Nat
  | .pop, .value (some _) => 1
  | .popPair, .pair (some _) => 2
  | .call ⟨f, _⟩, .result (.ok _) => f.arity
  | .call ⟨f, _⟩, .result (.error error) => if error.isRefusal then 0 else f.arity
  | _, _ => 0

def pushedBy (actions : List StackAction) : List Float :=
  actions.flatMap StackAction.pushed

def takenBy : List StackAction → List StackAnswer → Nat
  | action :: actions, answer :: answers => action.taken answer + takenBy actions answers
  | _, _ => 0

section

variable (stack : ValueStack) (action : StackAction)

theorem performAll_cons (rest : List StackAction) : stack.performAll (action :: rest) =
    ((stack.perform action).1 :: (ValueStack.performAll (stack.perform action).2 rest).1,
      (ValueStack.performAll (stack.perform action).2 rest).2) := rfl

theorem performAll_concat (actions : List StackAction) : stack.performAll (actions ++ [action]) =
    ((stack.performAll actions).1 ++ [((stack.performAll actions).2.perform action).1],
      ((stack.performAll actions).2.perform action).2) := by
  induction actions generalizing stack with
  | nil => rfl
  | cons first rest ih =>
    rw [List.cons_append, performAll_cons, ih, performAll_cons]
    rfl

theorem taken_answer (served : action.Served stack.length) :
    action.demand ≤ stack.length ∧ action.taken (action.answer (stack.take action.demand)) = action.demand := by
  cases action with
  | push value => exact ⟨Nat.zero_le _, rfl⟩
  | pop =>
    cases stack with
    | nil => cases served
    | cons => exact ⟨served, rfl⟩
  | popPair =>
    rcases stack with _ | ⟨right, _ | ⟨left, rest⟩⟩
    · cases served
    · cases Nat.le_of_succ_le_succ served
    · exact ⟨served, rfl⟩
  | call call =>
    obtain ⟨f, args⟩ := call
    obtain ⟨rfl, enough⟩ : args = f.arity ∧ f.arity ≤ stack.length := served
    have length : (stack.take f.arity).reverse.length = f.arity := by
      rw [List.length_reverse, List.length_take, Nat.min_eq_left enough]
    refine ⟨enough, ?_⟩
    rw [StackAction.answer, StackAction.demand]
    cases given : f.applyTo (stack.take f.arity).reverse with
    | ok => rfl
    | error error =>
      have fair := EvalError.isDomain_not_isRefusal (Builtin.applyTo_isDomain length given)
      rw [StackAction.taken, if_neg (Bool.eq_false_iff.mp fair)]

theorem taken_refusal : action.taken action.refusal = 0 := by
  cases action with
  | push | pop | popPair => rfl
  | call call => exact if_pos (call.function.refusal_isRefusal call.args)

theorem pushed_reverse : action.pushed.reverse = action.pushed := by
  cases action with
  | push | pop | popPair | call => rfl

theorem perform_taken : (stack.perform action).2.length + action.taken (stack.perform action).1 =
      stack.length + action.pushed.length ∧
    (stack.perform action).2.reverse.Sublist (stack.reverse ++ action.pushed) := by
  by_cases served : action.Served stack.length
  · obtain ⟨found, taken⟩ := taken_answer stack action served
    rw [perform_served served, taken, List.length_append, List.length_drop, List.reverse_append, pushed_reverse]
    refine ⟨by omega, List.Sublist.append ?_ (List.Sublist.refl _)⟩
    exact List.reverse_sublist.mpr (List.drop_sublist _ _)
  · have none : action.pushed = [] := by
      cases action with
      | push => exact absurd (Nat.zero_le _) served
      | pop | popPair | call => rfl
    rw [perform_unserved served, taken_refusal, none, List.append_nil]
    exact ⟨rfl, List.Sublist.refl _⟩

/-- Step by step the values that wait are those that waited before and those that were pushed, less those taken. -/
theorem performAll_taken (actions : List StackAction) :
    (stack.performAll actions).2.length + takenBy actions (stack.performAll actions).1 =
      stack.length + (pushedBy actions).length ∧
    (stack.performAll actions).2.reverse.Sublist (stack.reverse ++ pushedBy actions) := by
  induction actions generalizing stack with
  | nil =>
    refine ⟨rfl, ?_⟩
    rw [pushedBy, List.flatMap_nil, List.append_nil]
    exact List.Sublist.refl _
  | cons action rest ih =>
    obtain ⟨height, order⟩ := perform_taken stack action
    obtain ⟨heights, orders⟩ := ih (stack.perform action).2
    have pushes : pushedBy (action :: rest) = action.pushed ++ pushedBy rest := List.flatMap_cons
    rw [performAll_cons, takenBy, pushes, List.length_append]
    refine ⟨?_, orders.trans ?_⟩
    · dsimp only
      omega
    · rw [← List.append_assoc]
      exact order.append (List.Sublist.refl _)

end

/-- Whatever has been done before, starting without values: an action that does not find its values, or a call that is
refused for its arguments, leaves the values as they are, and each other action takes the last ones that it works on
and answers by these alone. So the values that wait after a run are among those pushed in it, in that order, and as
many are missing as the answers tell. -/
theorem performAll_law (actions : List StackAction) :
    StackLaw (ValueStack.performAll [] actions).2 ∧
    (∀ action, ValueStack.performAll [] (actions ++ [action]) =
      ((ValueStack.performAll [] actions).1 ++ [((ValueStack.performAll [] actions).2.perform action).1],
        ((ValueStack.performAll [] actions).2.perform action).2)) ∧
    (ValueStack.performAll [] actions).2.reverse.Sublist (pushedBy actions) ∧
    (ValueStack.performAll [] actions).2.length + takenBy actions (ValueStack.performAll [] actions).1 =
      (pushedBy actions).length := by
  obtain ⟨height, order⟩ := performAll_taken [] actions
  rw [List.length_nil, Nat.zero_add] at height
  exact ⟨stackLaw _, fun action => performAll_concat [] action actions, order, height⟩

end Calculator
