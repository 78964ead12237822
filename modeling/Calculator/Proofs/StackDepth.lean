import Calculator.Proofs.TreeValue

namespace Calculator

/-- Whether a token belongs to postfix order. -/
def Token.isPostfix : Token → Bool
  | .number _ | .operator _ | .negate | .call _ => true
  | .name _ | .leftParen | .rightParen | .separator | .blank => false

/-- By how much a postfix token changes the number of values that wait. -/
def Token.gain : Token → Int
  | .number _ => 1
  | .operator _ => -1
  | .call ⟨_, args⟩ => 1 - args
  | .name _ | .negate | .leftParen | .rightParen | .separator | .blank => 0

def totalGain : List Token → Int
  | [] => 0
  | token :: rest => token.gain + totalGain rest

theorem totalGain_append (tokens more : List Token) :
    totalGain (tokens ++ more) = totalGain tokens + totalGain more := by
  induction tokens with
  | nil => exact (Int.zero_add _).symm
  | cons token rest ih =>
    rw [List.cons_append, totalGain, totalGain, ih]
    omega

theorem totalGain_perm {tokens others : List Token} (perm : tokens.Perm others) :
    totalGain tokens = totalGain others := by
  induction perm with
  | nil => rfl
  | cons token _ ih => rw [totalGain, totalGain, ih]
  | swap first second rest =>
    simp only [totalGain]
    omega
  | trans _ _ first second => exact first.trans second

/-- A call that gives a value has as many arguments as its function takes, and takes as many values. -/
theorem applyCall_ok {f : Builtin} {args : Nat} {stack : ValueStack} {value : Float}
    (applied : (applyCall ⟨f, args⟩ stack).1 = .ok value) :
    args = f.arity ∧ stack.length = (applyCall ⟨f, args⟩ stack).2.length + args := by
  have counted : args = f.arity := by
    by_contra wrong
    simp only [applyCall, arityError?_of_ne_arity wrong] at applied
    cases applied
  subst counted
  refine ⟨rfl, ?_⟩
  cases f with
  | pow =>
    rcases stack with _ | ⟨exponent, _ | ⟨base, rest⟩⟩
    · cases applied
    · cases applied
    · have enough : ¬((2 : Nat) ≠ 2 ∨ (exponent :: base :: rest).length < 2) := by
        simp only [List.length_cons]
        omega
      simp only [applyCall, arityError?, Builtin.arity, enough, if_false]
      rfl
  | sin | cos | tan | sqrt | log | ln | abs =>
    cases stack with
    | nil => cases applied
    | cons => rfl

theorem step_gain {stack result : ValueStack} {token : Token} (step : stack.step token = .ok result) :
    (result.length : Int) = stack.length + token.gain ∧
      ∀ f args, token = .call ⟨f, args⟩ → args = f.arity := by
  cases token with
  | number value =>
    cases step
    exact ⟨by simp [Token.gain], by simp⟩
  | negate =>
    cases stack with
    | nil => cases step
    | cons value rest =>
      cases step
      exact ⟨by simp [Token.gain], by simp⟩
  | operator op =>
    rcases stack with _ | ⟨right, _ | ⟨left, rest⟩⟩
    · cases step
    · cases step
    · obtain ⟨value, _, rfl⟩ := map_eq_ok.mp step
      refine ⟨?_, by simp⟩
      simp only [List.length_cons, Token.gain]
      omega
  | call call =>
    obtain ⟨f, args⟩ := call
    change (applyCall ⟨f, args⟩ stack).1.map (· :: (applyCall ⟨f, args⟩ stack).2) = _ at step
    obtain ⟨value, applied, rfl⟩ := map_eq_ok.mp step
    obtain ⟨counted, taken⟩ := applyCall_ok applied
    refine ⟨?_, fun g count same => by cases same; exact counted⟩
    simp only [List.length_cons, Token.gain]
    omega
  | name | leftParen | rightParen | separator | blank => cases step

theorem run_gain {stack result : ValueStack} {tokens : List Token}
    (run : ValueStack.run stack tokens = .ok result) :
    (result.length : Int) = stack.length + totalGain tokens ∧
      ∀ f args, .call ⟨f, args⟩ ∈ tokens → args = f.arity := by
  induction tokens generalizing stack with
  | nil =>
    cases run
    exact ⟨by simp [totalGain], by simp⟩
  | cons token rest ih =>
    rw [run_cons] at run
    obtain ⟨next, step, run⟩ := bind_eq_ok.mp run
    obtain ⟨length, counted⟩ := ih run
    obtain ⟨first, call⟩ := step_gain step
    refine ⟨by rw [totalGain]; omega, ?_⟩
    intro f args member
    rcases List.mem_cons.mp member with same | later
    · exact call f args same.symm
    · exact counted f args later

/-- A sequence that has a value gains exactly one value, and each of its calls has as many arguments as
its function takes. -/
theorem evalPostfix_gain {tokens : List Token} {x : Float} (run : evalPostfix tokens = .ok x) :
    totalGain tokens = 1 ∧ ∀ f args, .call ⟨f, args⟩ ∈ tokens → args = f.arity := by
  rw [evalPostfix] at run
  obtain ⟨stack, ran, run⟩ := bind_eq_ok.mp run
  obtain ⟨length, counted⟩ := run_gain ran
  rcases stack with _ | ⟨value, _ | ⟨second, rest⟩⟩
  · cases run
  · simp only [List.length_cons, List.length_nil] at length
    exact ⟨by omega, counted⟩
  · cases run

end Calculator
