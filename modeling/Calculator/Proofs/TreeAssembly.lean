import Mathlib.Data.List.Forall2
import Calculator.Proofs.StackDepth

namespace Calculator

/-- Every call of the tree has as many arguments as its function takes. -/
inductive Expression.Saturated : Expression → Prop
  | number (value) : Saturated (.number value)
  | negate {operand} : Saturated operand → Saturated (.negate operand)
  | binary {op left right} : Saturated left → Saturated right → Saturated (.binary op left right)
  | call {f args} : args.length = f.arity → (∀ t ∈ args, Saturated t) → Saturated (.call f args)

/-- What one postfix token does to the trees that wait, the last one first. A call takes as many as it
counts, whatever its function takes. -/
def assembleStep (trees : List Expression) : Token → Option (List Expression)
  | .number value => some (.number value :: trees)
  | .negate =>
    match trees with
    | operand :: rest => some (.negate operand :: rest)
    | [] => none
  | .operator op =>
    match trees with
    | right :: left :: rest => some (.binary op left right :: rest)
    | _ => none
  | .call ⟨f, args⟩ =>
    if args ≤ trees.length then some (.call f (trees.take args).reverse :: trees.drop args) else none
  | .name _ | .leftParen | .rightParen | .separator | .blank => none

/-- The trees that wait after a postfix sequence. -/
def assemble (trees : List Expression) (tokens : List Token) : Option (List Expression) :=
  tokens.foldlM assembleStep trees

theorem assemble_append (trees : List Expression) (tokens more : List Token) :
    assemble trees (tokens ++ more) = (assemble trees tokens).bind (assemble · more) :=
  List.foldlM_append

theorem assemble_cons (trees : List Expression) (token : Token) (tokens : List Token) :
    assemble trees (token :: tokens) = (assembleStep trees token).bind (assemble · tokens) :=
  List.foldlM_cons

theorem assemble_singleton (trees : List Expression) (token : Token) :
    assemble trees [token] = assembleStep trees token := by
  rw [assemble_cons]
  exact Option.bind_fun_some _

mutual

/-- The postfix order of a tree assembles that tree, above whatever waits. -/
theorem assemble_postorder (t : Expression) (trees : List Expression) :
    assemble trees t.postorder = some (t :: trees) := by
  cases t with
  | number value => rfl
  | negate operand =>
    rw [Expression.postorder, assemble_append, assemble_postorder operand, Option.bind_some, assemble_singleton]
    rfl
  | binary op left right =>
    rw [Expression.postorder, assemble_append, assemble_append, assemble_postorder left, Option.bind_some,
      assemble_postorder right, Option.bind_some, assemble_singleton]
    rfl
  | call f args =>
    have waiting : args.length ≤ (args.reverse ++ trees).length := by simp
    have taken : (args.reverse ++ trees).take args.length = args.reverse :=
      List.take_left' (List.length_reverse ..)
    have left : (args.reverse ++ trees).drop args.length = trees := List.drop_left' (List.length_reverse ..)
    rw [Expression.postorder, assemble_append, assemble_postorders args, Option.bind_some, assemble_singleton,
      assembleStep, if_pos waiting, taken, left, List.reverse_reverse]

theorem assemble_postorders (args : List Expression) (trees : List Expression) :
    assemble trees (postorders args) = some (args.reverse ++ trees) := by
  cases args with
  | nil => rfl
  | cons t rest =>
    rw [postorders, assemble_append, assemble_postorder t, Option.bind_some, assemble_postorders rest,
      List.reverse_cons, List.append_assoc, List.singleton_append]

end

/-- A sequence is the postfix order of at most one tree. -/
theorem Expression.postorder_injective : Function.Injective Expression.postorder := by
  intro t u same
  have first := assemble_postorder t []
  rw [same, assemble_postorder u] at first
  cases first
  rfl

theorem postorders_append (trees more : List Expression) :
    postorders (trees ++ more) = postorders trees ++ postorders more := by
  induction trees with
  | nil => rfl
  | cons t rest ih => rw [List.cons_append, postorders, postorders, ih, List.append_assoc]

theorem postorders_reverse_cons (t : Expression) (rest : List Expression) :
    postorders (t :: rest).reverse = postorders rest.reverse ++ t.postorder := by
  rw [List.reverse_cons, postorders_append, postorders, postorders, List.append_nil]

/-- Together the trees that wait always spell what has been read. -/
theorem assembleStep_spells {trees later : List Expression} {token : Token}
    (step : assembleStep trees token = some later) :
    postorders later.reverse = postorders trees.reverse ++ [token] := by
  cases token with
  | number value =>
    cases step
    exact postorders_reverse_cons _ _
  | negate =>
    cases trees with
    | nil => cases step
    | cons operand rest =>
      cases step
      rw [postorders_reverse_cons, postorders_reverse_cons, Expression.postorder, List.append_assoc]
  | operator op =>
    rcases trees with _ | ⟨right, _ | ⟨left, rest⟩⟩
    · cases step
    · cases step
    · cases step
      simp only [postorders_reverse_cons, Expression.postorder, List.append_assoc]
  | call call =>
    obtain ⟨f, args⟩ := call
    by_cases enough : args ≤ trees.length
    · rw [assembleStep, if_pos enough] at step
      cases step
      have counted : (trees.take args).reverse.length = args := by
        rw [List.length_reverse, List.length_take, Nat.min_eq_left enough]
      have whole : trees.reverse = (trees.drop args).reverse ++ (trees.take args).reverse := by
        rw [← List.reverse_append, List.take_append_drop]
      rw [postorders_reverse_cons, Expression.postorder, counted, whole, postorders_append, List.append_assoc]
    · rw [assembleStep, if_neg enough] at step
      cases step
  | name | leftParen | rightParen | separator | blank => cases step

theorem assemble_spells {trees later : List Expression} {tokens : List Token}
    (assembled : assemble trees tokens = some later) :
    postorders later.reverse = postorders trees.reverse ++ tokens := by
  induction tokens generalizing trees with
  | nil =>
    cases assembled
    rw [List.append_nil]
  | cons token rest ih =>
    rw [assemble_cons] at assembled
    obtain ⟨next, step, others⟩ := Option.bind_eq_some_iff.mp assembled
    rw [ih others, assembleStep_spells step, List.append_assoc, List.singleton_append]

section Values

variable {trees : List Expression} {stack : ValueStack}

/-- Trees and values that wait side by side. -/
abbrev Valued (trees : List Expression) (stack : ValueStack) : Prop :=
  List.Forall₂ (fun t value => t.value = .ok value) trees stack

/-- The arguments of a call are written in the order opposite to that in which they wait. -/
theorem Valued.arguments (valued : Valued trees stack) : argumentValues trees.reverse = .ok stack.reverse := by
  have reversed : Valued trees.reverse stack.reverse := List.rel_reverse valued
  generalize trees.reverse = args at reversed
  generalize stack.reverse = values at reversed
  induction reversed with
  | nil => rfl
  | cons first _ ih =>
    rw [argumentValues, first, ih]
    rfl

theorem Valued.call {f : Builtin} {args : Nat} {value : Float} (valued : Valued trees stack)
    (applied : (applyCall ⟨f, args⟩ stack).1 = .ok value) :
    ∃ later, assembleStep trees (.call ⟨f, args⟩) = some later ∧
      Valued later (value :: (applyCall ⟨f, args⟩ stack).2) := by
  obtain ⟨_, taken⟩ := applyCall_ok applied
  have enough : args ≤ stack.length := by omega
  have first : Valued (trees.take args) (stack.take args) := List.forall₂_take args valued
  have rest : Valued (trees.drop args) (stack.drop args) := List.forall₂_drop args valued
  have stepped := step_call_take f enough
  change (applyCall ⟨f, args⟩ stack).1.map (· :: (applyCall ⟨f, args⟩ stack).2) = _ at stepped
  rw [applied] at stepped
  obtain ⟨result, whole, same⟩ := map_eq_ok.mp stepped.symm
  injection same with head tail
  refine ⟨_, by rw [assembleStep, if_pos (valued.length_eq ▸ enough)], .cons ?_ ?_⟩
  · rw [Expression.value, first.arguments]
    change f.applyTo (stack.take args).reverse = _
    rw [whole, head]
  · exact tail ▸ rest

theorem Valued.step {result : ValueStack} {token : Token} (valued : Valued trees stack)
    (step : stack.step token = .ok result) :
    ∃ later, assembleStep trees token = some later ∧ Valued later result := by
  cases token with
  | number value =>
    cases step
    exact ⟨_, rfl, .cons rfl valued⟩
  | negate =>
    cases valued with
    | nil => cases step
    | cons first rest =>
      cases step
      refine ⟨_, rfl, .cons ?_ rest⟩
      rw [Expression.value, first]
      rfl
  | operator op =>
    rcases valued with _ | ⟨second, _ | ⟨first, rest⟩⟩
    · cases step
    · cases step
    · obtain ⟨value, applied, rfl⟩ := map_eq_ok.mp step
      refine ⟨_, rfl, .cons ?_ rest⟩
      rw [Expression.value, first, second]
      exact applied
  | call call =>
    obtain ⟨value, applied, rfl⟩ := map_eq_ok.mp step
    exact valued.call applied
  | name | leftParen | rightParen | separator | blank => cases step

theorem Valued.run {result : ValueStack} {tokens : List Token} (valued : Valued trees stack)
    (run : ValueStack.run stack tokens = .ok result) :
    ∃ later, assemble trees tokens = some later ∧ Valued later result := by
  induction tokens generalizing trees stack with
  | nil =>
    cases run
    exact ⟨trees, rfl, valued⟩
  | cons token rest ih =>
    rw [run_cons] at run
    obtain ⟨next, step, run⟩ := bind_eq_ok.mp run
    obtain ⟨between, assembled, valuedNext⟩ := valued.step step
    obtain ⟨later, others, valuedLater⟩ := ih valuedNext run
    refine ⟨later, ?_, valuedLater⟩
    rw [assemble_cons, assembled, Option.bind_some, others]

end Values

mutual

/-- A tree that has a value was given the right number of arguments everywhere. -/
theorem Expression.saturated_of_value (t : Expression) {value : Float} (valued : t.value = .ok value) :
    t.Saturated := by
  cases t with
  | number => exact .number _
  | negate operand =>
    rw [Expression.value] at valued
    obtain ⟨inner, inside, _⟩ := map_eq_ok.mp valued
    exact .negate (operand.saturated_of_value inside)
  | binary op left right =>
    rw [Expression.value] at valued
    obtain ⟨l, first, valued⟩ := bind_eq_ok.mp valued
    obtain ⟨r, second, _⟩ := bind_eq_ok.mp valued
    exact .binary (left.saturated_of_value first) (right.saturated_of_value second)
  | call f args =>
    rw [Expression.value] at valued
    obtain ⟨values, inside, applied⟩ := bind_eq_ok.mp valued
    refine .call ?_ (saturated_of_argumentValues args inside)
    by_contra wrong
    rw [← argumentValues_length inside] at wrong
    rw [Builtin.applyTo_refused wrong] at applied
    cases applied

theorem saturated_of_argumentValues (args : List Expression) {values : List Float}
    (valued : argumentValues args = .ok values) : ∀ t ∈ args, t.Saturated := by
  cases args with
  | nil => simp
  | cons t rest =>
    rw [argumentValues] at valued
    obtain ⟨value, first, valued⟩ := bind_eq_ok.mp valued
    obtain ⟨later, others, _⟩ := bind_eq_ok.mp valued
    refine List.forall_mem_cons.mpr ⟨t.saturated_of_value first, ?_⟩
    exact saturated_of_argumentValues rest others

end

theorem evalPostfix_tree {tokens : List Token} {x : Float} (run : evalPostfix tokens = .ok x) :
    ∃ t : Expression, t.Saturated ∧ t.postorder = tokens ∧ t.value = .ok x := by
  rw [evalPostfix] at run
  obtain ⟨stack, ran, run⟩ := bind_eq_ok.mp run
  obtain ⟨trees, assembled, valued⟩ := Valued.run .nil ran
  have spelled := assemble_spells assembled
  rcases valued with _ | ⟨first, _ | _⟩
  · cases run
  · cases run
    refine ⟨_, Expression.saturated_of_value _ first, ?_, first⟩
    simpa only [List.reverse_cons, List.reverse_nil, List.nil_append, postorders, List.append_nil] using spelled
  · cases run

/-- How many of the waiting values a postfix token works on. -/
def Token.takes : Token → Nat
  | .negate => 1
  | .operator _ => 2
  | .call ⟨_, args⟩ => args
  | .number _ | .name _ | .leftParen | .rightParen | .separator | .blank => 0

theorem step_takes {stack result : ValueStack} {token : Token} (step : stack.step token = .ok result) :
    token.isPostfix = true ∧ token.takes ≤ stack.length := by
  cases token with
  | number value => exact ⟨rfl, Nat.zero_le _⟩
  | negate =>
    cases stack with
    | nil => cases step
    | cons value rest => exact ⟨rfl, Nat.succ_le_succ (Nat.zero_le _)⟩
  | operator op =>
    rcases stack with _ | ⟨right, _ | ⟨left, rest⟩⟩
    · cases step
    · cases step
    · exact ⟨rfl, Nat.succ_le_succ (Nat.succ_le_succ (Nat.zero_le _))⟩
  | call call =>
    obtain ⟨value, applied, _⟩ := map_eq_ok.mp step
    obtain ⟨_, taken⟩ := applyCall_ok applied
    exact ⟨rfl, taken ▸ Nat.le_add_left ..⟩
  | name | leftParen | rightParen | separator | blank => cases step

/-- Wherever a token of a sequence that evaluates stands, the values that it works on wait. -/
theorem run_takes {before after : List Token} {token : Token} {stack : ValueStack}
    (run : ValueStack.run [] (before ++ token :: after) = .ok stack) :
    token.isPostfix = true ∧ token.takes ≤ totalGain before := by
  rw [run_append] at run
  obtain ⟨waiting, ran, run⟩ := bind_eq_ok.mp run
  rw [run_cons] at run
  obtain ⟨next, step, _⟩ := bind_eq_ok.mp run
  obtain ⟨postfixed, enough⟩ := step_takes step
  obtain ⟨length, _⟩ := run_gain ran
  refine ⟨postfixed, ?_⟩
  simp only [List.length_nil] at length
  omega

/-- A token sequence has a value exactly if it is the postfix order of a tree that has this value, and
there is no other such tree. So every token of it belongs to postfix order and finds the values that it
works on, one value is left, and the calls count as many arguments as their functions take. -/
theorem evalPostfix_eq_ok_iff (tokens : List Token) :
    (∀ x, evalPostfix tokens = .ok x ↔
      ∃ t : Expression, t.Saturated ∧ t.postorder = tokens ∧ t.value = .ok x) ∧
    (∀ t u : Expression, t.postorder = tokens → u.postorder = tokens → t = u) ∧
    ∀ x, evalPostfix tokens = .ok x →
      (∀ before token after, tokens = before ++ token :: after →
        token.isPostfix = true ∧ token.takes ≤ totalGain before) ∧
      totalGain tokens = 1 ∧ ∀ f args, .call ⟨f, args⟩ ∈ tokens → args = f.arity := by
  refine ⟨fun x => ⟨evalPostfix_tree, ?_⟩, ?_, ?_⟩
  · rintro ⟨t, _, rfl, valued⟩
    rw [evalPostfix_postorder, valued]
  · intro t u first second
    exact Expression.postorder_injective (first.trans second.symm)
  · intro x run
    refine ⟨?_, evalPostfix_gain run⟩
    rintro before token after rfl
    rw [evalPostfix] at run
    obtain ⟨stack, ran, _⟩ := bind_eq_ok.mp run
    exact run_takes ran

theorem evalPostfix_negated_difference :
    evalPostfix [.number 4, .number 10, .operator .sub, .negate, .call ⟨.abs, 1⟩] = .ok 6 ∧
    (∃ t : Expression, t.Saturated ∧
      t.postorder = [.number 4, .number 10, .operator .sub, .negate, .call ⟨.abs, 1⟩] ∧ t.value = .ok 6) ∧
    totalGain [.number 4, .number 10, .operator .sub, .negate, .call ⟨.abs, 1⟩] = 1 := by
  have run : evalPostfix [.number 4, .number 10, .operator .sub, .negate, .call ⟨.abs, 1⟩] = .ok 6 := by
    decide +kernel
  obtain ⟨trees, _, consequences⟩ := evalPostfix_eq_ok_iff
    [.number 4, .number 10, .operator .sub, .negate, .call ⟨.abs, 1⟩]
  exact ⟨run, (trees 6).mp run, (consequences 6 run).2.1⟩

end Calculator
