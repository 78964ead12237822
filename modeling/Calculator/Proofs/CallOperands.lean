import Calculator.Proofs.OutlineMoves
import Calculator.Proofs.TreeAssembly
import Calculator.Proofs.WrittenCalls

namespace Calculator

/-!
Where a call finds its values. An argument in which no operand is missing is converted to the postfix order
of one tree or of several, so it leaves at least one value above whatever waits, and a call that counts its
arguments right takes only such values. An argument without an operand leaves none although it counts.
-/

/-! ### What waits and what is there for it -/

/-- How many values fewer there are once an entry has left. -/
def Pending.uses : Pending → Nat
  | .binary _ => 1
  | .group true separators => separators
  | .negate | .function _ | .group false _ => 0

def uses : List Pending → Nat
  | [] => 0
  | entry :: rest => entry.uses + uses rest

section Uses

variable (pending : List Pending)

theorem uses_binary (op : Operator) : uses (.binary op :: pending) = 1 + uses pending :=
  rfl

theorem uses_list (commas : Nat) : uses (.group true commas :: pending) = commas + uses pending :=
  rfl

theorem uses_negate : uses (.negate :: pending) = uses pending :=
  Nat.zero_add _

theorem uses_function (f : Builtin) : uses (.function f :: pending) = uses pending :=
  Nat.zero_add _

theorem uses_group (commas : Nat) : uses (.group false commas :: pending) = uses pending :=
  Nat.zero_add _

end Uses

theorem uses_append (pending more : List Pending) : uses (pending ++ more) = uses pending + uses more := by
  induction pending with
  | nil => exact (Nat.zero_add _).symm
  | cons entry rest ih => rw [List.cons_append, uses, uses, ih, Nat.add_assoc]

/-- Operators that find enough trees make one of them all. -/
theorem assemble_flush {held : List Pending} (operators : ∀ entry ∈ held, entry.isOperator = true)
    {trees : List Expression} (enough : uses held < trees.length) :
    ∃ later, assemble trees (held.flatMap Pending.flush) = some later ∧ later.length + uses held = trees.length := by
  induction held generalizing trees with
  | nil => exact ⟨trees, rfl, rfl⟩
  | cons entry rest ih =>
    obtain ⟨operator, others⟩ := List.forall_mem_cons.mp operators
    cases entry with
    | binary op =>
      rw [uses_binary] at enough ⊢
      rcases trees with _ | ⟨right, _ | ⟨left, trees⟩⟩
      · cases enough
      · rw [List.length_singleton] at enough
        omega
      · rw [List.length_cons, List.length_cons] at enough
        have fewer : uses rest < (Expression.binary op left right :: trees).length := by
          rw [List.length_cons]
          omega
        obtain ⟨later, assembled, length⟩ := ih others fewer
        refine ⟨later, assembled, ?_⟩
        rw [List.length_cons] at length ⊢
        rw [List.length_cons]
        omega
    | negate =>
      rw [uses_negate] at enough ⊢
      cases trees with
      | nil => cases enough
      | cons operand trees =>
        have same : uses rest < (Expression.negate operand :: trees).length := enough
        obtain ⟨later, assembled, length⟩ := ih others same
        exact ⟨later, assembled, length⟩
    | function | group => cases operator

/-- Operators that are followed by an operand leave, and one value more than the others use remains. -/
theorem assemble_held {held below : List Pending} (operators : ∀ entry ∈ held, entry.isOperator = true)
    {trees : List Expression} (enough : uses (held ++ below) + 1 ≤ trees.length) :
    ∃ later, assemble trees (held.flatMap Pending.flush) = some later ∧ uses below + 1 ≤ later.length := by
  rw [uses_append] at enough
  obtain ⟨later, assembled, length⟩ := assemble_flush operators (by omega : uses held < trees.length)
  exact ⟨later, assembled, by omega⟩

/-- The same for the operators that leave before another one, which then waits for its second operand. -/
theorem assemble_pushBinary (op : Operator) {pending : List Pending} {trees : List Expression}
    (enough : uses pending + 1 ≤ trees.length) :
    ∃ later, assemble trees (pushBinary op pending).2 = some later ∧ uses (pushBinary op pending).1 ≤ later.length := by
  have operators : ∀ entry ∈ pending.takeWhile (·.goesBefore op), entry.isOperator = true := fun entry member =>
    Pending.isOperator_of_goesBefore (List.mem_takeWhile_imp (p := fun entry : Pending => entry.goesBefore op) member)
  have whole := List.takeWhile_append_dropWhile (p := fun entry : Pending => entry.goesBefore op) (l := pending)
  rw [← whole] at enough
  obtain ⟨later, assembled, length⟩ := assemble_held operators enough
  refine ⟨later, assembled, ?_⟩
  change uses (.binary op :: pending.dropWhile (·.goesBefore op)) ≤ later.length
  rw [uses_binary, Nat.add_comm]
  exact length

/-- A call that closes takes one value for each argument and leaves one. -/
theorem assemble_endCall {held rest : List Pending} {f : Builtin} {commas : Nat} {trees : List Expression}
    (operators : ∀ entry ∈ held, entry.isOperator = true)
    (enough : uses (held ++ .group true commas :: .function f :: rest) + 1 ≤ trees.length) :
    ∃ later, assemble trees (held.flatMap Pending.flush ++ [.call ⟨f, commas + 1⟩]) = some later ∧
      uses rest + 1 ≤ later.length := by
  obtain ⟨more, assembled, length⟩ := assemble_held operators enough
  rw [uses_list, uses_function] at length
  have found : commas + 1 ≤ more.length := by omega
  refine ⟨.call f (more.take (commas + 1)).reverse :: more.drop (commas + 1), ?_, ?_⟩
  · rw [assemble_append, assembled, Option.bind_some]
    exact (assemble_singleton _ _).trans (if_pos found)
  · rw [List.length_cons, List.length_drop]
    omega

section Innermost

variable {pending : List Pending} {outer : List (Option (Builtin × Nat))}

theorem Nested.innermost_plain (nested : Nested pending (none :: outer)) :
    ∃ held commas rest, pending = held ++ .group false commas :: rest ∧ ∀ entry ∈ held, entry.isOperator = true := by
  obtain ⟨held, below, rfl, operators, shape⟩ := nested.innermost
  rcases shape with ⟨none, _⟩ | ⟨commas, rest, _, _, rfl, _⟩ | ⟨_, _, _, _, same, _⟩
  · cases none
  · exact ⟨held, commas, rest, rfl, operators⟩
  · cases same

theorem Nested.innermost_call {f : Builtin} {commas : Nat} (nested : Nested pending (some (f, commas) :: outer)) :
    ∃ held rest, pending = held ++ .group true commas :: .function f :: rest ∧
      ∀ entry ∈ held, entry.isOperator = true := by
  obtain ⟨held, below, rfl, operators, shape⟩ := nested.innermost
  rcases shape with ⟨none, _⟩ | ⟨_, _, _, same, _⟩ | ⟨_, _, rest, _, same, rfl, _⟩
  · cases none
  · cases same
  · cases same
    exact ⟨held, rest, rfl, operators⟩

end Innermost

/-- Trees enough wait for all that is on the stack, and one more unless an operand has to come. -/
def Supplied (outline : Outline) (state : Conversion) (trees : List Expression) : Prop :=
  uses state.pending + (!outline.awaits).toNat ≤ trees.length

/-- What is put out is made into trees, and there are enough of them again. -/
def Supplies (trees : List Expression) (result : Conversion × List Token) (later : Outline) : Prop :=
  ∃ more, assemble trees result.2 = some more ∧ Supplied later result.1 more

section Supplies

variable {pending : List Pending} {groups outer : List (Option (Builtin × Nat))} {expects opened : Bool} {after : Conversion}
  {next : Option Token} {output : List Token} {trees : List Expression}

theorem supplies_number {value : Float} (waiting : uses pending ≤ trees.length) :
    Supplies trees (⟨pending, false, opened, false⟩, [.number value]) ⟨groups, none, false, false⟩ :=
  ⟨.number value :: trees, rfl, Nat.succ_le_succ waiting⟩

/-- A token that puts out nothing leaves the trees to what comes later. -/
theorem supplies_silent {later : Outline} (waiting : uses after.pending ≤ trees.length) (awaits : later.awaits = true) :
    Supplies trees (after, []) later := by
  refine ⟨trees, rfl, ?_⟩
  rw [Supplied, awaits]
  exact waiting

theorem supplies_constant {name : String} {value : Float} (known : constant? name = some value)
    (waiting : uses pending ≤ trees.length)
    (stepped : Conversion.step ⟨pending, expects, opened, false⟩ (.name name) next = .ok (after, output)) :
    Supplies trees (after, output) ⟨groups, none, false, false⟩ := by
  simp only [Conversion.step, Conversion.read, Conversion.readName, ofName_eq_none_of_constant known, known] at stepped
  cases stepped
  exact supplies_number waiting

theorem supplies_function {name : String} {f : Builtin} (function : Builtin.ofName? name = some f)
    (waiting : uses pending ≤ trees.length)
    (stepped : Conversion.step ⟨pending, expects, opened, false⟩ (.name name) next = .ok (after, output)) :
    Supplies trees (after, output) ⟨groups, some f, expects, false⟩ := by
  simp only [Conversion.step, Conversion.read, Conversion.readName, function] at stepped
  split at stepped
  · cases stepped
    refine supplies_silent ?_ (Bool.or_true _)
    rw [uses_function]
    exact waiting
  · cases stepped

theorem supplies_leftParen {state : Conversion} {function : Option Builtin}
    (outlined : state.Outlined ⟨groups, function, expects, opened⟩) (waiting : uses state.pending ≤ trees.length)
    (stepped : state.step .leftParen next = .ok (after, output)) :
    Supplies trees (after, output) ⟨function.map (·, 0) :: groups, none, true, true⟩ := by
  cases outlined with
  | between =>
    cases stepped
    refine supplies_silent ?_ rfl
    rw [uses_group]
    exact waiting
  | named =>
    cases stepped
    refine supplies_silent ?_ rfl
    rw [uses_list, Nat.zero_add]
    exact waiting

theorem supplies_binary {op : Operator} (enough : uses pending + 1 ≤ trees.length)
    (stepped : Conversion.step ⟨pending, false, opened, false⟩ (.operator op) next = .ok (after, output)) :
    Supplies trees (after, output) ⟨groups, none, true, false⟩ := by
  simp only [Conversion.step, Conversion.read, Bool.false_eq_true, and_false, if_false] at stepped
  cases stepped
  exact assemble_pushBinary op enough

theorem supplies_closeGroup (nested : Nested pending (none :: outer)) (enough : uses pending + 1 ≤ trees.length)
    (stepped : Conversion.step ⟨pending, false, opened, false⟩ .rightParen next = .ok (after, output)) :
    Supplies trees (after, output) ⟨outer, none, false, false⟩ := by
  obtain ⟨held, commas, rest, rfl, operators⟩ := nested.innermost_plain
  obtain ⟨more, assembled, length⟩ := assemble_held operators enough
  simp only [Conversion.step, Conversion.read, close_plain operators] at stepped
  cases stepped
  rw [uses_group] at length
  exact ⟨more, assembled, length⟩

theorem supplies_closeCall {f : Builtin} {commas : Nat} (nested : Nested pending (some (f, commas) :: outer))
    (enough : uses pending + 1 ≤ trees.length)
    (stepped : Conversion.step ⟨pending, false, false, false⟩ .rightParen next = .ok (after, output)) :
    Supplies trees (after, output) ⟨outer, none, false, false⟩ := by
  obtain ⟨held, rest, rfl, operators⟩ := nested.innermost_call
  simp only [Conversion.step, Conversion.read, close_call operators] at stepped
  cases stepped
  exact assemble_endCall operators enough

theorem supplies_comma {f : Builtin} {commas : Nat} (nested : Nested pending (some (f, commas) :: outer))
    (enough : uses pending + 1 ≤ trees.length)
    (stepped : Conversion.step ⟨pending, false, opened, false⟩ .separator next = .ok (after, output)) :
    Supplies trees (after, output) ⟨some (f, commas + 1) :: outer, none, true, false⟩ := by
  obtain ⟨held, rest, rfl, operators⟩ := nested.innermost_call
  obtain ⟨more, assembled, length⟩ := assemble_held operators enough
  simp only [Conversion.step, Conversion.read, separate_call operators] at stepped
  cases stepped
  refine ⟨more, assembled, ?_⟩
  change uses (.group true (commas + 1) :: .function f :: rest) ≤ more.length
  rw [uses_list] at length ⊢
  omega

end Supplies

/-- No operand has to come before a token that follows one. -/
theorem expects_of_present {before token : Token} {groups : List (Option (Builtin × Nat))} {expects opened : Bool}
    (ends : before.endsOperand = !Outline.awaits ⟨groups, none, expects, opened⟩) (present : before.lacks token = false)
    (follows : token.followsOperand = true) : expects = false := by
  rw [Token.lacks, ends, follows, Bool.not_not, Bool.and_true] at present
  exact (Bool.or_eq_false_iff.mp present).1

/-- A token in whose place no operand is missing goes on with enough trees for all that waits, and with one
more unless an operand has to come. -/
theorem Outline.Move.supplies {outline later : Outline} {state after : Conversion} {before token : Token}
    {next : Option Token} {output settled : List Token} {trees : List Expression}
    (move : outline.Move token later settled) (outlined : state.Outlined outline)
    (stepped : state.step token next = .ok (after, output)) (ends : before.endsOperand = !outline.awaits)
    (present : before.lacks token = false) (fresh : outline.justOpened = true → outline.expectsOperand = true)
    (enough : Supplied outline state trees) : Supplies trees (after, output) later := by
  have waiting : uses state.pending ≤ trees.length := Nat.le_trans (Nat.le_add_right _ _) enough
  cases move with
  | leftParen => exact supplies_leftParen outlined waiting stepped
  | number =>
    cases outlined
    cases stepped
    exact supplies_number waiting
  | constant known =>
    cases outlined
    exact supplies_constant known waiting stepped
  | function function =>
    cases outlined
    exact supplies_function function waiting stepped
  | sign =>
    cases outlined
    cases stepped
    refine supplies_silent ?_ rfl
    rw [uses_negate]
    exact waiting
  | @binary _ expects _ op binary =>
    cases outlined
    have settled : expects = false := by
      refine Bool.eq_false_iff.mpr fun expected => ?_
      have other : (op != .sub) = true := bne_iff_ne.mpr fun minus => binary ⟨minus, expected⟩
      rw [expects_of_present ends present other] at expected
      cases expected
    subst settled
    exact supplies_binary enough stepped
  | closeGroup =>
    cases outlined with
    | between _ _ nested =>
      cases expects_of_present ends present rfl
      exact supplies_closeGroup nested enough stepped
  | @closeCall _ _ opened =>
    cases outlined with
    | between _ _ nested =>
      cases expects_of_present ends present rfl
      -- A list that has just been opened would still expect an operand.
      have within : opened = false := Bool.eq_false_iff.mpr fun just => Bool.false_ne_true (fresh just)
      subst within
      exact supplies_closeCall nested enough stepped
  | comma =>
    cases outlined with
    | between _ _ nested =>
      cases expects_of_present ends present rfl
      exact supplies_comma nested enough stepped

theorem Outline.Move.fresh {outline later : Outline} {token : Token} {settled : List Token}
    (move : outline.Move token later settled) (opened : later.justOpened = true) : later.expectsOperand = true := by
  cases move with
  | leftParen => rfl
  | number | constant | function | sign | binary | closeGroup | closeCall | comma => cases opened

/-- Where no operand is missing, all that has been put out is made into trees, and one is left at least. -/
theorem Conversion.Outlined.assembles {state : Conversion} {outline : Outline} (outlined : state.Outlined outline)
    {before : Token} {tokens output : List Token} {trees : List Expression}
    (lexed : ∀ token ∈ tokens, token.isLexed = true)
    (named : outline.function.isSome = true → tokens.head? = some .leftParen)
    (ends : before.endsOperand = !outline.awaits) (present : missingOperands before tokens = 0)
    (fresh : outline.justOpened = true → outline.expectsOperand = true)
    (enough : Supplied outline state trees) (ran : state.run tokens = .ok output) :
    ∃ later, assemble trees output = some later ∧ later ≠ [] := by
  induction tokens generalizing state outline before trees output with
  | nil =>
    rw [missingOperands, Bool.toNat_eq_zero, Bool.not_eq_false'] at present
    rw [Supplied, ← ends, present] at enough
    cases outlined with
    | named => exact absurd (named rfl) (by simp)
    | between _ _ nested =>
      obtain ⟨held, below, rfl, operators, shape⟩ := nested.innermost
      rw [Conversion.run] at ran
      rcases shape with ⟨_, rfl⟩ | ⟨commas, rest, _, _, rfl, _⟩ | ⟨_, commas, rest, _, _, rfl, _⟩
      · obtain ⟨later, assembled, length⟩ := assemble_held operators enough
        rw [List.append_nil, finish_outside operators] at ran
        cases ran
        exact ⟨later, assembled, List.ne_nil_of_length_pos (by omega)⟩
      · rw [finish_group] at ran
        cases ran
      · rw [finish_group] at ran
        cases ran
  | cons token rest ih =>
    obtain ⟨⟨after, early⟩, stepped, others⟩ := bind_eq_ok.mp ran
    obtain ⟨late, ranRest, same⟩ := bind_eq_ok.mp others
    cases same
    rw [missingOperands, Nat.add_eq_zero_iff, Bool.toNat_eq_zero] at present
    have first : outline.function.isSome = true → token = .leftParen := fun some => Option.some.inj (named some)
    obtain ⟨lexedFirst, lexedRest⟩ := List.forall_mem_cons.mp lexed
    have agree := outlined.step first rest.head?
    rw [stepped] at agree
    generalize settles : outline.step token rest.head? = result at agree
    cases agree with
    | ok follows =>
      obtain ⟨move, expected⟩ := Outline.step_move lexedFirst first settles
      obtain ⟨more, assembled, supplied⟩ := move.supplies outlined stepped ends present.1 fresh enough
      obtain ⟨later, assembledRest, some⟩ :=
        ih follows.1 lexedRest expected move.ends present.2 move.fresh supplied ranRest
      exact ⟨later, by rw [assemble_append, assembled, Option.bind_some, assembledRest], some⟩

/-- An argument in which no operand is missing is converted to the postfix order of trees. -/
theorem toPostfix_trees {tokens output : List Token} (lexed : ∀ token ∈ tokens, token.isLexed = true)
    (present : missingOperands .leftParen tokens = 0) (converted : toPostfix tokens = .ok output) :
    ∃ trees, output = postorders trees ∧ trees ≠ [] := by
  have start : Conversion.Outlined {} {} := .between true false .nil
  obtain ⟨trees, assembled, some⟩ :=
    @Conversion.Outlined.assembles {} {} start .leftParen tokens output [] lexed (by simp) rfl present (by simp)
      (Nat.zero_le _) converted
  refine ⟨trees.reverse, ?_, mt List.reverse_eq_nil_iff.mp some⟩
  exact (assemble_spells assembled).symm

/-- So are all arguments together, and there are no fewer trees than arguments. -/
theorem arguments_trees {arguments parts : List (List Token)}
    (lexed : ∀ argument ∈ arguments, ∀ token ∈ argument, token.isLexed = true)
    (present : ∀ argument ∈ arguments, missingOperands .leftParen argument = 0)
    (converted : List.Forall₂ (fun argument part => toPostfix argument = .ok part) arguments parts) :
    ∃ trees, parts.flatten = postorders trees ∧ arguments.length ≤ trees.length := by
  induction converted with
  | nil => exact ⟨[], rfl, Nat.le_refl 0⟩
  | @cons argument part arguments parts first _ ih =>
    obtain ⟨lexedFirst, lexedRest⟩ := List.forall_mem_cons.mp lexed
    obtain ⟨presentFirst, presentRest⟩ := List.forall_mem_cons.mp present
    obtain ⟨trees, rfl, some⟩ := toPostfix_trees lexedFirst presentFirst first
    obtain ⟨others, whole, enough⟩ := ih lexedRest presentRest
    refine ⟨trees ++ others, by rw [List.flatten_cons, whole, postorders_append], ?_⟩
    have positive := List.length_pos_iff.mpr some
    rw [List.length_cons, List.length_append]
    omega

/-! ### The call -/

/-- A run that reaches a call with a wrong number of arguments ends with the error of this call. -/
theorem evaluate_refused {source : String} {tokens before after : List Token} {f : Builtin} {args : Nat}
    {stack : ValueStack} (lexed : tokenize source = .ok tokens)
    (converted : toPostfix tokens = .ok (before ++ .call ⟨f, args⟩ :: after))
    (ran : ValueStack.run [] before = .ok stack) (wrong : args ≠ f.arity) :
    evaluate source = .error (.arithmetic (f.argumentError args)) := by
  have failed : evalPostfix (before ++ .call ⟨f, args⟩ :: after) = .error (f.argumentError args) := by
    have reached : ValueStack.run [] (before ++ .call ⟨f, args⟩ :: after) = .error (f.argumentError args) := by
      rw [run_append, ran]
      change ValueStack.run stack (.call ⟨f, args⟩ :: after) = _
      rw [run_cons, step_call_refused wrong]
      rfl
    rw [evalPostfix, reached]
    rfl
  have ordered : postfixOf source = .ok (before ++ .call ⟨f, args⟩ :: after) := by
    rw [postfixOf, lexed]
    exact congrArg (Except.mapError Failure.syntactic) converted
  rw [evaluate, ordered]
  change ((evalPostfix (before ++ .call ⟨f, args⟩ :: after)).mapError Failure.arithmetic >>= _) = _
  rw [failed]
  rfl

/-- Every call of a text is converted to what its arguments put out, one after the other, and the call with
their number. Once an evaluation has come so far, a call with a wrong number of arguments is refused with its own
error. Any other takes only values that its arguments have put there, if no argument lacks an operand. -/
theorem call_takes_own_values {source : String} {tokens output : List Token} (lexed : tokenize source = .ok tokens)
    (converted : toPostfix tokens = .ok output) {before rest : List Token} {f : Builtin}
    (written : tokens = before ++ .name f.name :: rest) :
    ∃ (call : WrittenCall) (parts : List (List Token)) (early late : List Token), writtenCall? rest = some call ∧
      rest = call.text ++ call.after ∧
      List.Forall₂ (fun argument part => toPostfix argument = .ok part) call.arguments parts ∧
      output = early ++ parts.flatten ++ .call ⟨f, call.arguments.length⟩ :: late ∧
      (∀ x, toPostfix (before ++ .number x :: call.after) = .ok (early ++ .number x :: late)) ∧
      ∀ stack, ValueStack.run [] (early ++ parts.flatten) = .ok stack →
        (call.arguments.length ≠ f.arity →
          applyCall ⟨f, call.arguments.length⟩ stack = (.error (f.argumentError call.arguments.length), stack) ∧
          evaluate source = .error (.arithmetic (f.argumentError call.arguments.length))) ∧
        (call.arguments.length = f.arity → (∀ argument ∈ call.arguments, missingOperands .leftParen argument = 0) →
          ∃ own below, ValueStack.run [] early = .ok below ∧ ValueStack.run [] parts.flatten = .ok own ∧
            stack = own ++ below ∧ f.arity ≤ own.length ∧
            applyCall ⟨f, f.arity⟩ stack = (f.applyTo (own.take f.arity).reverse, own.drop f.arity ++ below)) := by
  subst written
  obtain ⟨call, parts, early, late, cut, whole, each, rfl, place⟩ := toPostfix_call converted
  refine ⟨call, parts, early, late, cut, whole, each, rfl, place, fun stack ran => ⟨fun wrong => ?_, ?_⟩⟩
  · exact ⟨applyCall_refused wrong stack, evaluate_refused lexed converted ran wrong⟩
  · intro counted present
    have inside : ∀ argument ∈ call.arguments, ∀ token ∈ argument, token.isLexed = true := by
      intro argument among token member
      refine tokensFrom_isLexed lexed token (List.mem_append_right _ (List.mem_cons_of_mem _ ?_))
      rw [whole]
      exact List.mem_append_left _ (call.mem_text among member)
    obtain ⟨trees, spelled, enough⟩ := arguments_trees inside present each
    rw [run_append] at ran
    obtain ⟨below, ranEarly, ran⟩ := bind_eq_ok.mp ran
    rw [spelled, run_postorders] at ran ⊢
    obtain ⟨values, valued, same⟩ := map_eq_ok.mp ran
    have found : f.arity ≤ values.reverse.length := by
      rw [List.length_reverse, argumentValues_length valued]
      omega
    refine ⟨values.reverse, below, ranEarly, ?_, same.symm, found, ?_⟩
    · rw [valued]
      simp [Except.map]
    · have above : f.arity ≤ (values.reverse ++ below).length := by
        rw [List.length_append]
        omega
      rw [← same, applyCall_take above, List.take_append_of_le_length found, List.drop_append_of_le_length found]

/-- The root takes the nine and leaves the ten, which is not its own. -/
theorem call_takes_own_values_root :
    tokenize "10 - sqrt(9)" =
      .ok [.number 10, .operator .sub, .name "sqrt", .leftParen, .number 9, .rightParen] ∧
    toPostfix [.number 10, .operator .sub, .name "sqrt", .leftParen, .number 9, .rightParen] =
      .ok [.number 10, .number 9, .call ⟨.sqrt, 1⟩, .operator .sub] ∧
    ∃ own below, ValueStack.run [] [.number 9] = .ok own ∧ own ++ below = [9, 10] ∧
      applyCall ⟨.sqrt, 1⟩ [9, 10] = (Builtin.sqrt.applyTo (own.take 1).reverse, own.drop 1 ++ below) := by
  have lexed : tokenize "10 - sqrt(9)" =
      .ok [.number 10, .operator .sub, .name "sqrt", .leftParen, .number 9, .rightParen] := by decide +kernel
  have converted : toPostfix [.number 10, .operator .sub, .name "sqrt", .leftParen, .number 9, .rightParen] =
      .ok [.number 10, .number 9, .call ⟨.sqrt, 1⟩, .operator .sub] := rfl
  obtain ⟨call, parts, early, late, cut, _, each, whole, _, runs⟩ :=
    @call_takes_own_values _ _ _ lexed converted [.number 10, .operator .sub] _ .sqrt rfl
  cases cut
  have arguments : WrittenCall.arguments ⟨[.number 9], [], []⟩ = [[.number 9]] := if_neg (by simp [WrittenCall.parts])
  change List.Forall₂ _ (WrittenCall.arguments ⟨[.number 9], [], []⟩) parts at each
  change _ = early ++ parts.flatten ++ .call ⟨.sqrt, (WrittenCall.arguments ⟨[.number 9], [], []⟩).length⟩ :: late at whole
  rw [arguments] at each whole
  rcases each with _ | ⟨first, _ | _⟩
  have nine : toPostfix [.number 9] = .ok [.number 9] := rfl
  cases first.symm.trans nine
  rcases early with _ | ⟨ten, _ | ⟨other, more⟩⟩
  · simp at whole
  · cases (List.cons.inj whole).1
    have counted : (WrittenCall.arguments ⟨[.number 9], [], []⟩).length = Builtin.sqrt.arity := by rw [arguments]; rfl
    have present : ∀ argument ∈ WrittenCall.arguments ⟨[.number 9], [], []⟩, missingOperands .leftParen argument = 0 := by
      rw [arguments]
      simp [missingOperands, Token.lacks, Token.endsOperand, Token.followsOperand]
    obtain ⟨own, below, _, ran, same, _, taken⟩ := (runs [9, 10] rfl).2 counted present
    exact ⟨lexed, converted, own, below, ran, same.symm, taken⟩
  · have length := congrArg List.length whole
    cases more with
    | nil => simp at whole
    | cons =>
      simp only [List.flatten_cons, List.flatten_nil, List.length_append, List.length_cons, List.length_nil] at length
      omega

/-- A place without an argument counts, and the call takes a value that is not its own. -/
theorem empty_argument_counts :
    tokenize "3 pow(,2)" = .ok [.number 3, .name "pow", .leftParen, .separator, .number 2, .rightParen] ∧
    writtenCall? [.leftParen, .separator, .number 2, .rightParen] = some ⟨[], [[.number 2]], []⟩ ∧
    toPostfix [.number 3, .name "pow", .leftParen, .separator, .number 2, .rightParen] =
      .ok [.number 3, .number 2, .call ⟨.pow, 2⟩] ∧
    ValueStack.run [] [.number 2] = .ok [2] ∧ applyCall ⟨.pow, 2⟩ [2, 3] = (.ok (Float.pow 3 2), []) := by
  refine ⟨by decide +kernel, rfl, rfl, rfl, rfl⟩

end Calculator
