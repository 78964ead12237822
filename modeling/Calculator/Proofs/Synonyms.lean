import Calculator.Evaluation
import Calculator.Proofs.GroupContext
import Calculator.Proofs.RunFrame

namespace Calculator

/-!
Two ways to write the same operation are the same in every surrounding. Each is converted as a single
operand, so only the postfix operation that stands for it matters, and that does the same with the same
waiting values: `pow` and `^` always, `log` and `ln` unless the value has no logarithm.
-/

/-- The value of infix tokens, not rounded. -/
def infixValue (tokens : List Token) : Except Failure Float := do
  let output ← (toPostfix tokens).mapError .syntactic
  (evalPostfix output).mapError .arithmetic

/-- An expression has the value of its tokens, rounded. -/
theorem evaluate_eq_infixValue (source : String) : evaluate source = (do
    let tokens ← (tokenize source).mapError .lexical
    let value ← infixValue tokens
    (normalize value).mapError .arithmetic) := by
  simp only [evaluate, postfixOf, infixValue, bind_assoc]

theorem infixValue_eq_ok {tokens : List Token} {x : Float} :
    infixValue tokens = .ok x ↔ ∃ output, toPostfix tokens = .ok output ∧ evalPostfix output = .ok x := by
  simp only [infixValue, bind_eq_ok, mapError_eq_ok]

theorem infixValue_of_converted {tokens output : List Token} (converted : toPostfix tokens = .ok output) :
    infixValue tokens = (evalPostfix output).mapError .arithmetic := by
  rw [infixValue, converted]
  rfl

theorem infixValue_of_refused {tokens : List Token} {cause : SyntaxError} (refused : toPostfix tokens = .error cause) :
    infixValue tokens = .error (.syntactic cause) := by
  rw [infixValue, refused]
  rfl

/-! ### Whether an operand is reached -/

/-- An operand between these tokens is evaluated: they convert around any number, and what they put out
before it does not fail. -/
def Reaches (before after : List Token) : Prop :=
  ∃ early late stack, (∀ x, toPostfix (before ++ [.number x] ++ after) = .ok (early ++ [.number x] ++ late)) ∧
    ValueStack.run [] early = .ok stack

/-- Different numbers in one place of a sequence show where the place is. -/
theorem place_unique {early early' late late' : List Token}
    (same : ∀ x, early ++ [.number x] ++ late = early' ++ [.number x] ++ late') : early = early' ∧ late = late' := by
  -- a token inside one prefix cannot be both numbers
  have distinct : Token.number 0 ≠ Token.number 1 := by decide +kernel
  induction early generalizing early' with
  | nil =>
    cases early' with
    | nil => exact ⟨rfl, (List.cons.inj (same 0)).2⟩
    | cons token rest =>
      have first := (List.cons.inj (same 0)).1
      exact absurd (first.trans (List.cons.inj (same 1)).1.symm) distinct
  | cons token rest ih =>
    cases early' with
    | nil =>
      have first := (List.cons.inj (same 0)).1
      exact absurd (first.symm.trans (List.cons.inj (same 1)).1) distinct
    | cons other more =>
      obtain ⟨rfl, rfl⟩ := ih fun x => (List.cons.inj (same x)).2
      obtain ⟨rfl, _⟩ := List.cons.inj (same 0)
      exact ⟨rfl, rfl⟩

section Surrounded

variable {before : List Token} (plain : ∀ token ∈ before.getLast?, token.isFunctionName = false)
  (after : List Token)
include plain

/-- Operands whose postfix orders do the same with all waiting values are interchangeable. -/
theorem infixValue_congr {piece other output otherOutput : List Token} (reads : ReadsAsOperand piece output)
    (readsOther : ReadsAsOperand other otherOutput)
    (alike : ∀ stack, ValueStack.run stack output = ValueStack.run stack otherOutput) :
    infixValue (before ++ piece ++ after) = infixValue (before ++ other ++ after) := by
  rcases operands_alike plain after with ⟨cause, fails⟩ | ⟨early, late, converts⟩
  · rw [infixValue_of_refused (fails _ _ reads), infixValue_of_refused (fails _ _ readsOther)]
  · rw [infixValue_of_converted (converts _ _ reads), infixValue_of_converted (converts _ _ readsOther),
      evalPostfix_congr alike]

/-- So are any two operands that are not evaluated. -/
theorem infixValue_unreached {piece other output otherOutput : List Token} (reads : ReadsAsOperand piece output)
    (readsOther : ReadsAsOperand other otherOutput) (unreached : ¬Reaches before after) :
    infixValue (before ++ piece ++ after) = infixValue (before ++ other ++ after) := by
  rcases operands_alike plain after with ⟨cause, fails⟩ | ⟨early, late, converts⟩
  · rw [infixValue_of_refused (fails _ _ reads), infixValue_of_refused (fails _ _ readsOther)]
  · cases ran : ValueStack.run [] early with
    | ok stack => exact absurd ⟨early, late, stack, fun x => converts _ _ (readsAsOperand_number x), ran⟩ unreached
    | error cause =>
      have stops : ∀ output, evalPostfix (early ++ output ++ late) = .error cause := by
        intro output
        rw [evalPostfix, List.append_assoc, run_append, ran]
        rfl
      rw [infixValue_of_converted (converts _ _ reads), infixValue_of_converted (converts _ _ readsOther), stops, stops]

/-- An operand that fails with whatever values wait makes the whole fail where it is evaluated. -/
theorem infixValue_reached {piece output : List Token} {cause : EvalError} (reads : ReadsAsOperand piece output)
    (fails : ∀ stack, ValueStack.run stack output = .error cause) (reached : Reaches before after) :
    infixValue (before ++ piece ++ after) = .error (.arithmetic cause) := by
  obtain ⟨early, late, stack, around, ran⟩ := reached
  rcases operands_alike plain after with ⟨refusal, refuses⟩ | ⟨early', late', converts⟩
  · have refused := (around 0).symm.trans (refuses _ _ (readsAsOperand_number 0))
    cases refused
  · have same : ∀ x, early ++ [.number x] ++ late = early' ++ [.number x] ++ late' := fun x =>
      Except.ok.inj ((around x).symm.trans (converts _ _ (readsAsOperand_number x)))
    obtain ⟨rfl, rfl⟩ := place_unique same
    rw [infixValue_of_converted (converts _ _ reads), evalPostfix, run_append, run_append, ran]
    change (((ValueStack.run stack output >>= fun stack => ValueStack.run stack late) >>= _).mapError _) = _
    rw [fails]
    rfl

end Surrounded

/-! ### Calls and operators on arguments that have values -/

/-- A call as it is written, with a comma between its arguments. -/
def callText (f : Builtin) (arguments : List (List Token)) : List Token :=
  [.name f.name, .leftParen] ++ List.intercalate [.separator] arguments ++ [.rightParen]

def inParens (tokens : List Token) : List Token :=
  [.leftParen] ++ tokens ++ [.rightParen]

/-- The operator `^` between two operands in parentheses, in parentheses as a whole. -/
def powerText (base exponent : List Token) : List Token :=
  inParens (inParens base ++ [.operator .pow] ++ inParens exponent)

/-- Sequences that have values by themselves leave these, the last one on top. -/
theorem run_values {outputs : List (List Token)} {values : List Float}
    (valued : List.Forall₂ (fun output x => evalPostfix output = .ok x) outputs values) (stack : ValueStack) :
    ValueStack.run stack outputs.flatten = .ok (values.reverse ++ stack) := by
  induction valued generalizing stack with
  | nil => rfl
  | @cons output x outputs values first others ih =>
    rw [List.flatten_cons, run_append, run_value first]
    change ValueStack.run (x :: stack) outputs.flatten = _
    rw [ih, List.reverse_cons, List.append_assoc, List.singleton_append]

/-- Arguments that have values are converted one by one, and each sequence has the value of its argument. -/
theorem exists_outputs {arguments : List (List Token)} {values : List Float}
    (valued : List.Forall₂ (fun argument x => infixValue argument = .ok x) arguments values) :
    ∃ outputs, List.Forall₂ (fun argument output => toPostfix argument = .ok output) arguments outputs ∧
      List.Forall₂ (fun output x => evalPostfix output = .ok x) outputs values := by
  induction valued with
  | nil => exact ⟨[], .nil, .nil⟩
  | cons first others ih =>
    obtain ⟨output, converted, evaluated⟩ := infixValue_eq_ok.mp first
    obtain ⟨outputs, convertedRest, evaluatedRest⟩ := ih
    exact ⟨output :: outputs, .cons converted convertedRest, .cons evaluated evaluatedRest⟩

/-- A call whose arguments have values is an operand for the conversion, and what it puts out gives the
function these values. -/
theorem call_operand {arguments : List (List Token)} {values : List Float}
    (valued : List.Forall₂ (fun argument x => infixValue argument = .ok x) arguments values) (some : arguments ≠ [])
    (f : Builtin) :
    ∃ output, ReadsAsOperand (callText f arguments) output ∧
      ∀ stack, ValueStack.run stack output = (f.applyTo values).map (· :: stack) := by
  obtain ⟨outputs, converted, evaluated⟩ := exists_outputs valued
  -- an empty list is read as no arguments, but nothing has no value
  have written : arguments ≠ [[]] := by
    rintro rfl
    cases valued with
    | cons first _ =>
      obtain ⟨output, converted, evaluated⟩ := infixValue_eq_ok.mp first
      cases converted
      cases evaluated
  refine ⟨_, reads_call converted some written f, fun stack => ?_⟩
  rw [run_append, run_values evaluated, valued.length_eq]
  exact (run_singleton _ _).trans (step_call f values stack)

/-- So is the operator, and it is applied to the values of its two sides. -/
theorem power_operand {base exponent : List Token} {x y : Float} (valued : infixValue base = .ok x)
    (valuedExponent : infixValue exponent = .ok y) :
    ∃ output, ReadsAsOperand (powerText base exponent) output ∧
      ∀ stack, ValueStack.run stack output = .ok (x.pow y :: stack) := by
  obtain ⟨first, converted, evaluated⟩ := infixValue_eq_ok.mp valued
  obtain ⟨second, convertedExponent, evaluatedExponent⟩ := infixValue_eq_ok.mp valuedExponent
  have left := reads_group converted [] true false
  have operator := @reads_binary .pow [] [] (by simp) (by simp)
  have right := reads_group convertedExponent [.binary .pow] true false
  have inner := ((left.append operator).append right).toPostfix (by simp [Pending.isOperator, Pending.precedence?])
  rw [List.flatMap_nil, List.append_nil] at inner
  refine ⟨_, reads_group inner, fun stack => ?_⟩
  change ValueStack.run stack (first ++ second ++ [.operator .pow]) = _
  rw [run_append, run_append, run_value evaluated]
  change (ValueStack.run (x :: stack) second >>= _) = _
  rw [run_value evaluatedExponent]
  exact run_singleton (y :: x :: stack) (.operator .pow)

/-! ### Synonyms -/

/-- `pow` of two arguments and the operator `^` are the same between any tokens. So are `log` and `ln`, apart
from the one case in which that very call fails: there the error has the name that is written. -/
theorem synonyms_equivalent {before : List Token} (plain : ∀ token ∈ before.getLast?, token.isFunctionName = false)
    (after : List Token) :
    (∀ a b x y, infixValue a = .ok x → infixValue b = .ok y →
      infixValue (before ++ callText .pow [a, b] ++ after) = infixValue (before ++ powerText a b ++ after)) ∧
    ∀ a x, infixValue a = .ok x →
      (Reaches before after ∧ x ≤ floatZero → ∀ f ∈ [Builtin.log, .ln],
        infixValue (before ++ callText f [a] ++ after) = .error (.arithmetic (.logOfNonPositive f))) ∧
      (¬(Reaches before after ∧ x ≤ floatZero) →
        infixValue (before ++ callText .log [a] ++ after) = infixValue (before ++ callText .ln [a] ++ after)) := by
  refine ⟨fun a b x y valued valuedExponent => ?_, fun a x valued => ⟨?_, fun passes => ?_⟩⟩
  · obtain ⟨output, call, runs⟩ := call_operand (.cons valued (.cons valuedExponent .nil)) (by simp) .pow
    obtain ⟨other, operator, runsOther⟩ := power_operand valued valuedExponent
    exact infixValue_congr plain after call operator fun stack => (runs stack).trans (runsOther stack).symm
  · rintro ⟨reached, nonPositive⟩ f named
    obtain ⟨output, call, runs⟩ := call_operand (.cons valued .nil) (by simp) f
    have refused : f.applyTo [x] = .error (.logOfNonPositive f) := by
      rcases List.mem_pair.mp named with rfl | rfl
      · exact if_pos nonPositive
      · exact if_pos nonPositive
    refine infixValue_reached plain after call (fun stack => ?_) reached
    rw [runs, refused]
    rfl
  · obtain ⟨output, log, runs⟩ := call_operand (.cons valued .nil) (by simp) .log
    obtain ⟨other, ln, runsOther⟩ := call_operand (.cons valued .nil) (by simp) .ln
    by_cases reached : Reaches before after
    · have positive : ¬x ≤ floatZero := fun nonPositive => passes ⟨reached, nonPositive⟩
      have same : Builtin.log.applyTo [x] = Builtin.ln.applyTo [x] :=
        (if_neg positive).trans (if_neg positive).symm
      refine infixValue_congr plain after log ln fun stack => ?_
      rw [runs, runsOther, same]
    · exact infixValue_unreached plain after log ln reached

theorem synonyms_equivalent_in_quotient :
    (∀ token ∈ ([.number 1, .operator .add] : List Token).getLast?, token.isFunctionName = false) ∧
    infixValue [.operator .sub, .number 2] = .ok (-2) ∧ infixValue [.number 3] = .ok 3 ∧
    infixValue [.number 1, .operator .add, .name "pow", .leftParen, .operator .sub, .number 2, .separator, .number 3,
        .rightParen, .operator .div, .number 0] =
      infixValue [.number 1, .operator .add, .leftParen, .leftParen, .operator .sub, .number 2, .rightParen,
        .operator .pow, .leftParen, .number 3, .rightParen, .rightParen, .operator .div, .number 0] ∧
    (Reaches [.number 1, .operator .add] [.operator .div, .number 0] ∧ (-2 : Float) ≤ floatZero) ∧
    infixValue [.number 1, .operator .add, .name "ln", .leftParen, .operator .sub, .number 2, .rightParen,
      .operator .div, .number 0] = .error (.arithmetic (.logOfNonPositive .ln)) ∧
    ¬(Reaches [.number 1, .operator .add] [.operator .div, .number 0] ∧ (3 : Float) ≤ floatZero) ∧
    infixValue [.number 1, .operator .add, .name "log", .leftParen, .number 3, .rightParen, .operator .div, .number 0] =
      infixValue [.number 1, .operator .add, .name "ln", .leftParen, .number 3, .rightParen, .operator .div, .number 0] := by
  have plain : ∀ token ∈ ([.number 1, .operator .add] : List Token).getLast?, token.isFunctionName = false := by
    rintro token ⟨⟩
    rfl
  have negative : infixValue [.operator .sub, .number 2] = .ok (-2) := by decide +kernel
  have positive : infixValue [.number 3] = .ok 3 := rfl
  have reached : Reaches [.number 1, .operator .add] [.operator .div, .number 0] :=
    ⟨[.number 1], [.number 0, .operator .div, .operator .add], [1], fun x => rfl, rfl⟩
  have below : (-2 : Float) ≤ floatZero := by decide +kernel
  have above : ¬(Reaches [.number 1, .operator .add] [.operator .div, .number 0] ∧ (3 : Float) ≤ floatZero) := by
    rintro ⟨_, nonPositive⟩
    exact absurd nonPositive (by decide +kernel)
  obtain ⟨powers, logarithms⟩ := synonyms_equivalent plain [.operator .div, .number 0]
  have power := powers _ _ _ _ negative positive
  have failing := (logarithms _ _ negative).1 ⟨reached, below⟩ .ln (by simp)
  have passing := (logarithms _ _ positive).2 above
  exact ⟨plain, negative, positive, power, ⟨reached, below⟩, failing, above, passing⟩

end Calculator
