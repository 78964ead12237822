import Calculator.Proofs.ConversionReads
import Calculator.Proofs.Grammar

namespace Calculator

/-- How tightly the operators of a nonterminal bind at least, signs included. -/
def Stratum.level : Stratum → Nat
  | .expr => 2
  | .term => 3
  | .power => 4
  | .unary | .primary => negatePrecedence

/-- An operator that binds at least so tightly. -/
def Pending.Binds (level : Nat) (entry : Pending) : Prop :=
  ∃ precedence, entry.precedence? = some precedence ∧ level ≤ precedence

theorem Pending.Binds.mono {lower upper : Nat} {entry : Pending} (binds : entry.Binds upper)
    (bound : lower ≤ upper) : entry.Binds lower := by
  obtain ⟨precedence, value, above⟩ := binds
  exact ⟨precedence, value, Nat.le_trans bound above⟩

theorem Pending.Binds.isOperator {level : Nat} {entry : Pending} (binds : entry.Binds level) :
    entry.isOperator = true := by
  obtain ⟨precedence, value, _⟩ := binds
  simp only [Pending.isOperator, value, Option.isSome_some]

/-- What binds tighter than an operator goes before it, and so does what binds as tightly unless the
operator groups from the right. -/
theorem Pending.Binds.goesBefore {level : Nat} {entry : Pending} {op : Operator} (binds : entry.Binds level)
    (tight : op.precedence < level ∨ op.precedence = level ∧ op.groupsRight = false) :
    entry.goesBefore op = true := by
  obtain ⟨precedence, value, above⟩ := binds
  simp only [Pending.goesBefore, value]
  rcases tight with less | ⟨same, left⟩
  · split
    · exact decide_eq_true (by omega)
    · exact decide_eq_true (by omega)
  · rw [left, if_neg (by simp)]
    exact decide_eq_true (by omega)

/-- The entries that wait leave none to an operator that binds at least so tightly. -/
def Fits (level : Nat) (pending : List Pending) : Prop :=
  ∀ op : Operator, level ≤ op.precedence → ∀ entry ∈ pending.head?, entry.goesBefore op = false

theorem Fits.mono {lower upper : Nat} {pending : List Pending} (fits : Fits lower pending)
    (bound : lower ≤ upper) : Fits upper pending :=
  fun op level => fits op (Nat.le_trans bound level)

theorem fits_nil (level : Nat) : Fits level [] := by
  intro op _ entry member
  cases member

theorem fits_group (level count : Nat) (call : Bool) (below : List Pending) :
    Fits level (.group call count :: below) := by
  intro op _ entry member
  cases Option.mem_some.mp member
  rfl

/-- Nothing waits in vain above an operator: only what binds tighter, or the power that it is. -/
theorem fits_binary {level : Nat} {op : Operator} (below : List Pending)
    (tight : op.precedence < level ∨ op = .pow ∧ level = 4) : Fits level (.binary op :: below) := by
  intro next bound entry member
  cases Option.mem_some.mp member
  rcases tight with less | ⟨rfl, rfl⟩
  · simp only [Pending.goesBefore, Pending.precedence?]
    split
    · exact decide_eq_false (by omega)
    · exact decide_eq_false (by omega)
  · cases next with
    | pow => rfl
    | add | sub | mul | div => simp [Operator.precedence] at bound

theorem fits_tightest (pending : List Pending) : Fits negatePrecedence pending := by
  intro op bound
  cases op with
  | add | sub | mul | div | pow => simp [Operator.precedence, negatePrecedence] at bound

/-- Where an operand is expected, a phrase is read to the end. It leaves operators above what waited,
and together with them it has added the postfix order of its tree. -/
def Converts (level : Nat) (tokens : List Token) (order : List Token) : Prop :=
  ∀ (pending : List Pending) (opened : Bool), Fits level pending → ∃ held output,
    Conversion.Reads { pending := pending, justOpened := opened } tokens
      { pending := held ++ pending, expectsOperand := false } output ∧
    (∀ entry ∈ held, entry.Binds level) ∧ output ++ held.flatMap Pending.flush = order

theorem Converts.mono {lower upper : Nat} {tokens order : List Token} (converts : Converts upper tokens order)
    (bound : lower ≤ upper) : Converts lower tokens order := by
  intro pending opened fits
  obtain ⟨held, output, reads, binds, whole⟩ := converts pending opened (fits.mono bound)
  exact ⟨held, output, reads, fun entry member => (binds entry member).mono bound, whole⟩

/-- An operator between two phrases. The left one has to give up all that it holds, and the right one
must not touch the operator. -/
theorem Converts.binary {lower upper : Nat} {left right before after : List Token}
    (first : Converts lower left before) (op : Operator) (second : Converts upper right after)
    (bound : op.precedence ≤ lower)
    (leaves : op.precedence < lower ∨ op.precedence = lower ∧ op.groupsRight = false)
    (stays : op.precedence < upper ∨ op = .pow ∧ upper = 4) :
    Converts op.precedence (left ++ .operator op :: right) (before ++ after ++ [.operator op]) := by
  intro pending opened fits
  have upperBound : op.precedence ≤ upper := by
    rcases stays with less | ⟨rfl, rfl⟩
    · exact Nat.le_of_lt less
    · exact Nat.le_refl 4
  obtain ⟨held, output, readsLeft, bindsLeft, wholeLeft⟩ := first pending opened (fits.mono bound)
  obtain ⟨kept, later, readsRight, bindsRight, wholeRight⟩ :=
    second (.binary op :: pending) false (fits_binary pending stays)
  have readsOperator := reads_binary (fun entry member => (bindsLeft entry member).goesBefore leaves)
    (fits op (Nat.le_refl _))
  refine ⟨kept ++ [.binary op], output ++ (held.flatMap Pending.flush ++ later), ?_, ?_, ?_⟩
  · simpa only [List.append_assoc, List.singleton_append] using
      readsLeft.append (readsOperator.append readsRight)
  · intro entry member
    rcases List.mem_append.mp member with above | last
    · exact (bindsRight entry above).mono upperBound
    · cases List.mem_singleton.mp last
      exact ⟨op.precedence, rfl, Nat.le_refl _⟩
  · rw [← wholeLeft, ← wholeRight]
    simp [Pending.flush]

theorem converts_single {tokens order : List Token}
    (reads : ∀ pending opened, Conversion.Reads { pending := pending, justOpened := opened } tokens
      { pending := pending, expectsOperand := false } order) : Converts negatePrecedence tokens order := by
  intro pending opened _
  exact ⟨[], order, reads pending opened, by simp, by simp⟩

theorem Converts.sign {tokens order : List Token} (converts : Converts negatePrecedence tokens order) :
    Converts negatePrecedence (.operator .sub :: tokens) (order ++ [.negate]) := by
  intro pending opened _
  obtain ⟨held, output, reads, binds, whole⟩ := converts (.negate :: pending) false (fits_tightest _)
  refine ⟨held ++ [.negate], output, ?_, ?_, ?_⟩
  · simpa only [List.append_assoc, List.singleton_append, List.nil_append] using
      (reads_sign pending opened).append reads
  · intro entry member
    rcases List.mem_append.mp member with above | last
    · exact binds entry above
    · cases List.mem_singleton.mp last
      exact ⟨negatePrecedence, rfl, Nat.le_refl _⟩
  · rw [← whole]
    simp [Pending.flush]

theorem Converts.group {level : Nat} {tokens order : List Token} (converts : Converts level tokens order) :
    Converts negatePrecedence (.leftParen :: (tokens ++ [.rightParen])) order := by
  refine converts_single fun pending opened => ?_
  obtain ⟨held, output, reads, binds, whole⟩ :=
    converts (.group false 0 :: pending) true (fits_group level 0 false pending)
  have closes := reads_close (fun entry member => (binds entry member).isOperator) pending 0 false false
  have all := (reads_open pending true opened).append (reads.append closes)
  rwa [List.nil_append, whole] at all

theorem converts_emptyCall {name : String} {f : Builtin} (function : Builtin.ofName? name = some f) :
    Converts negatePrecedence [.name name, .leftParen, .rightParen] [.call ⟨f, 0⟩] := by
  refine converts_single fun pending opened => ?_
  have closes := @reads_endCall [] (by simp) pending 0 f true true
  exact (reads_function pending true opened function).append closes

/-- Further arguments of a call. Each comma lets the argument before it leave and is counted. -/
theorem reads_arguments (pending : List Pending) {rest : List (List Token × Expression)}
    (converts : ∀ argument ∈ rest, Converts 2 argument.1 argument.2.postorder)
    {held : List Pending} (operators : ∀ entry ∈ held, entry.isOperator = true) (count : Nat) :
    ∃ kept output,
      Conversion.Reads { pending := held ++ .group true count :: pending, expectsOperand := false }
        (rest.flatMap fun argument => .separator :: argument.1)
        { pending := kept ++ .group true (count + rest.length) :: pending, expectsOperand := false } output ∧
      (∀ entry ∈ kept, entry.isOperator = true) ∧
      output ++ kept.flatMap Pending.flush =
        held.flatMap Pending.flush ++ postorders (rest.map Prod.snd) := by
  induction rest generalizing held count with
  | nil => exact ⟨held, [], .nil _, operators, by simp [postorders]⟩
  | cons argument rest ih =>
    obtain ⟨inside, output, reads, binds, whole⟩ := converts argument (List.mem_cons_self ..)
      (.group true (count + 1) :: pending) false (fits_group 2 (count + 1) true pending)
    obtain ⟨kept, later, readsRest, keptOperators, wholeRest⟩ := ih
      (fun other member => converts other (List.mem_cons_of_mem _ member))
      (fun entry member => (binds entry member).isOperator) (count + 1)
    have comma := reads_comma operators pending count false false
    refine ⟨kept, held.flatMap Pending.flush ++ (output ++ later), ?_, keptOperators, ?_⟩
    · have counted : count + (rest.length + 1) = count + 1 + rest.length := by omega
      simpa only [List.flatMap_cons, List.length_cons, counted, List.singleton_append, List.cons_append,
        List.nil_append] using comma.append (reads.append readsRest)
    · simp only [List.map_cons, postorders, ← whole, List.append_assoc, wholeRest]

theorem Converts.call {name : String} {f : Builtin} {tokens : List Token} {t : Expression}
    {rest : List (List Token × Expression)} (function : Builtin.ofName? name = some f)
    (converts : Converts 2 tokens t.postorder)
    (others : ∀ argument ∈ rest, Converts 2 argument.1 argument.2.postorder) :
    Converts negatePrecedence
      (.name name :: .leftParen ::
        (tokens ++ rest.flatMap (fun argument => .separator :: argument.1) ++ [.rightParen]))
      (Expression.call f (t :: rest.map Prod.snd)).postorder := by
  refine converts_single fun pending opened => ?_
  obtain ⟨inside, output, reads, binds, whole⟩ := converts (.group true 0 :: .function f :: pending) true
    (fits_group 2 0 true _)
  obtain ⟨kept, later, readsRest, operators, wholeRest⟩ := reads_arguments (.function f :: pending)
    others (fun entry member => (binds entry member).isOperator) 0
  have closes := reads_endCall operators pending (0 + rest.length) f false false
  have all := (reads_function pending true opened function).append (reads.append (readsRest.append closes))
  have order : output ++ (later ++ (kept.flatMap Pending.flush ++ [.call ⟨f, rest.length + 1⟩])) =
      (Expression.call f (t :: rest.map Prod.snd)).postorder := by
    rw [← List.append_assoc later, wholeRest, ← List.append_assoc, ← List.append_assoc, whole]
    simp [Expression.postorder, postorders]
  simpa [order] using all

theorem Derives.converts {stratum : Stratum} {tokens : List Token} {t : Expression}
    (derived : Derives stratum tokens t) : Converts stratum.level tokens t.postorder := by
  induction derived with
  | term _ ih => exact ih.mono (by decide)
  | power _ ih => exact ih.mono (by decide)
  | unary _ ih => exact ih.mono (by decide)
  | primary _ ih => exact ih
  | sum either _ _ left right =>
    rcases either with rfl | rfl
    · exact left.binary .add right (by decide) (by decide) (by decide)
    · exact left.binary .sub right (by decide) (by decide) (by decide)
  | product either _ _ left right =>
    rcases either with rfl | rfl
    · exact left.binary .mul right (by decide) (by decide) (by decide)
    · exact left.binary .div right (by decide) (by decide) (by decide)
  | raise _ _ left right => exact left.binary .pow right (by decide) (by decide) (by decide)
  | sign _ ih => exact ih.sign
  | number value => exact converts_single fun pending opened => reads_number pending true opened value
  | constant known =>
    exact converts_single fun pending opened =>
      reads_constant pending opened (ofName_eq_none_of_constant known) known
  | group _ ih => exact ih.group
  | emptyCall function => exact converts_emptyCall function
  | call function _ _ first others => exact first.call function others

/-- Whatever the infix grammar derives is converted to the postfix order of its tree. -/
theorem toPostfix_of_derives {tokens : List Token} {t : Expression} (derived : Derives .expr tokens t) :
    toPostfix tokens = .ok t.postorder := by
  obtain ⟨held, output, reads, binds, whole⟩ := derived.converts [] false (fits_nil _)
  rw [List.append_nil] at reads
  rw [reads.toPostfix fun entry member => (binds entry member).isOperator]
  exact congrArg Except.ok whole

theorem toPostfix_signed_power_less_call :
    Derives .expr
      [.operator .sub, .number 2, .operator .pow, .number 3, .operator .sub,
        .name "pow", .leftParen, .leftParen, .number 4, .rightParen, .separator, .name "e", .rightParen]
      (.binary .sub (.binary .pow (.negate (.number 2)) (.number 3))
        (.call .pow [.number 4, .number eulerValue])) ∧
    toPostfix
      [.operator .sub, .number 2, .operator .pow, .number 3, .operator .sub,
        .name "pow", .leftParen, .leftParen, .number 4, .rightParen, .separator, .name "e", .rightParen] =
      .ok [.number 2, .negate, .number 3, .operator .pow, .number 4, .number eulerValue,
        .call ⟨.pow, 2⟩, .operator .sub] := by
  have power : Derives .power [.operator .sub, .number 2, .operator .pow, .number 3] _ :=
    .raise (.sign (.primary (.number 2))) (.unary (.primary (.number 3)))
  have first : Derives .expr [.leftParen, .number 4, .rightParen] _ :=
    .term (.power (.unary (.primary (.group (.term (.power (.unary (.primary (.number 4)))))))))
  have second : Derives .expr [.name "e"] (.number eulerValue) :=
    .term (.power (.unary (.primary (.constant (by decide)))))
  have call : Derives .primary [.name "pow", .leftParen, .leftParen, .number 4, .rightParen, .separator,
      .name "e", .rightParen] _ :=
    @Derives.call "pow" .pow _ _ [([.name "e"], .number eulerValue)] (by decide) first (by simpa using second)
  have derived : Derives .expr [.operator .sub, .number 2, .operator .pow, .number 3, .operator .sub,
      .name "pow", .leftParen, .leftParen, .number 4, .rightParen, .separator, .name "e", .rightParen] _ :=
    .sum (.inr rfl) (.term (.power power)) (.power (.unary (.primary call)))
  exact ⟨derived, toPostfix_of_derives derived⟩

end Calculator
