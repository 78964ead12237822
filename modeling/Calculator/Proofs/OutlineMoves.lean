import Calculator.Lexeme
import Calculator.Proofs.OperandGaps
import Calculator.Proofs.Outline

namespace Calculator

/-- Whether a token comes from a text. The others only arise in a conversion. -/
def Token.isLexed : Token → Bool
  | .number _ | .name _ | .operator _ | .leftParen | .rightParen | .separator => true
  | .negate | .call _ | .blank => false

theorem Lexeme.token?_isLexed {lexeme : Lexeme} {offset : Nat} {token : Token}
    (read : lexeme.token? offset = .ok (some token)) : token.isLexed = true := by
  cases lexeme with
  | numeral text =>
    simp only [Lexeme.token?] at read
    split at read
    · cases read
      rfl
    · cases read
  | name text =>
    cases read
    rfl
  | symbol c =>
    simp only [Lexeme.token?] at read
    split at read
    · rename_i symbol
      cases read
      unfold Token.ofSymbol? at symbol
      split at symbol
      · cases symbol; rfl
      · cases symbol; rfl
      · cases symbol; rfl
      · obtain ⟨op, _, rfl⟩ := Option.map_eq_some_iff.mp symbol
        rfl
    · cases read
  | blank c => cases read

theorem tokensFrom_isLexed {lexemes : List Lexeme} {offset : Nat} {tokens : List Token}
    (read : tokensFrom offset lexemes = .ok tokens) : ∀ token ∈ tokens, token.isLexed = true := by
  induction lexemes generalizing offset tokens with
  | nil =>
    cases read
    simp
  | cons lexeme rest ih =>
    rw [tokensFrom] at read
    obtain ⟨token, first, read⟩ := bind_eq_ok.mp read
    obtain ⟨later, others, read⟩ := bind_eq_ok.mp read
    cases read
    intro other member
    rcases List.mem_append.mp member with here | after
    · cases Option.mem_toList.mp here
      exact Lexeme.token?_isLexed first
    · exact ih others other after

/-- What a token of a text does to an outline. -/
inductive Outline.Move : Outline → Token → Outline → List Token → Prop
  | number {groups expects opened} (value) :
      Move ⟨groups, none, expects, opened⟩ (.number value) ⟨groups, none, false, false⟩ [.number value]
  | constant {groups expects opened name value} : constant? name = some value →
      Move ⟨groups, none, expects, opened⟩ (.name name) ⟨groups, none, false, false⟩ [.number value]
  | function {groups expects opened name f} : Builtin.ofName? name = some f →
      Move ⟨groups, none, expects, opened⟩ (.name name) ⟨groups, some f, expects, false⟩ []
  | sign {groups opened} :
      Move ⟨groups, none, true, opened⟩ (.operator .sub) ⟨groups, none, true, false⟩ [.negate]
  | binary {groups expects opened op} : ¬(op = .sub ∧ expects = true) →
      Move ⟨groups, none, expects, opened⟩ (.operator op) ⟨groups, none, true, false⟩ [.operator op]
  | leftParen {groups expects opened} (function) :
      Move ⟨groups, function, expects, opened⟩ .leftParen
        ⟨function.map (·, 0) :: groups, none, true, true⟩ []
  | closeGroup {outer expects opened} :
      Move ⟨none :: outer, none, expects, opened⟩ .rightParen ⟨outer, none, false, false⟩ []
  | closeCall {outer expects opened} (f commas) :
      Move ⟨some (f, commas) :: outer, none, expects, opened⟩ .rightParen ⟨outer, none, false, false⟩
        [.call ⟨f, if opened then 0 else commas + 1⟩]
  | comma {outer expects opened} (f commas) :
      Move ⟨some (f, commas) :: outer, none, expects, opened⟩ .separator
        ⟨some (f, commas + 1) :: outer, none, true, false⟩ []

section Moves

variable {groups : List (Option (Builtin × Nat))} {expects opened : Bool} {later : Outline} {next : Option Token}
  {settled : List Token}

theorem move_name {text : String}
    (step : Outline.step ⟨groups, none, expects, opened⟩ (.name text) next = .ok (later, settled)) :
    Outline.Move ⟨groups, none, expects, opened⟩ (.name text) later settled ∧
      (later.function.isSome = true → next = some .leftParen) := by
  simp only [Outline.step, Outline.read, Outline.readName] at step
  cases function : Builtin.ofName? text with
  | some f =>
    by_cases opens : next = some .leftParen
    · simp only [function, if_pos opens] at step
      cases step
      exact ⟨.function function, fun _ => opens⟩
    · simp only [function, if_neg opens] at step
      cases step
  | none =>
    cases known : constant? text with
    | some value =>
      simp only [function, known] at step
      cases step
      exact ⟨.constant known, by simp⟩
    | none =>
      simp only [function, known] at step
      cases step

theorem move_rightParen (step : Outline.step ⟨groups, none, expects, opened⟩ .rightParen next = .ok (later, settled)) :
    Outline.Move ⟨groups, none, expects, opened⟩ .rightParen later settled ∧
      (later.function.isSome = true → next = some .leftParen) := by
  cases groups with
  | nil => cases step
  | cons group outer =>
    cases group with
    | none =>
      cases step
      exact ⟨.closeGroup, by simp⟩
    | some call =>
      cases step
      exact ⟨.closeCall call.1 call.2, by simp⟩

theorem move_separator (step : Outline.step ⟨groups, none, expects, opened⟩ .separator next = .ok (later, settled)) :
    Outline.Move ⟨groups, none, expects, opened⟩ .separator later settled ∧
      (later.function.isSome = true → next = some .leftParen) := by
  cases groups with
  | nil => cases step
  | cons group outer =>
    cases group with
    | none => cases step
    | some call =>
      cases step
      exact ⟨.comma call.1 call.2, by simp⟩

end Moves

theorem Outline.step_move {outline later : Outline} {token : Token} {next : Option Token} {settled : List Token}
    (lexed : token.isLexed = true) (named : outline.function.isSome = true → token = .leftParen)
    (step : outline.step token next = .ok (later, settled)) :
    outline.Move token later settled ∧ (later.function.isSome = true → next = some .leftParen) := by
  obtain ⟨groups, function, expects, opened⟩ := outline
  cases function with
  | some f =>
    cases named rfl
    cases step
    exact ⟨.leftParen (some f), by simp⟩
  | none =>
    cases token with
    | negate | call | blank => cases lexed
    | number value =>
      cases step
      exact ⟨.number value, by simp⟩
    | leftParen =>
      cases step
      exact ⟨.leftParen none, by simp⟩
    | name text => exact move_name step
    | operator op =>
      by_cases sign : op = .sub ∧ expects = true
      · obtain ⟨rfl, rfl⟩ := sign
        cases step
        exact ⟨.sign, by simp⟩
      · simp only [Outline.step, Outline.read, if_neg sign] at step
        cases step
        exact ⟨.binary sign, by simp⟩
    | rightParen => exact move_rightParen step
    | separator => exact move_separator step

/-- The moves that read a text to its end, where every group is closed. -/
inductive Outline.Walk : Outline → List Token → List Token → Prop
  | done (expects opened) : Walk ⟨[], none, expects, opened⟩ [] []
  | move {outline later token rest put settled} : outline.Move token later put → later.Walk rest settled →
      Walk outline (token :: rest) (put ++ settled)

theorem Outline.run_walk {outline : Outline} {tokens settled : List Token}
    (lexed : ∀ token ∈ tokens, token.isLexed = true)
    (named : outline.function.isSome = true → tokens.head? = some .leftParen)
    (run : outline.run tokens = .ok settled) : outline.Walk tokens settled := by
  induction tokens generalizing outline settled with
  | nil =>
    obtain ⟨groups, function, expects, opened⟩ := outline
    rw [Outline.run] at run
    split at run
    · rename_i closed
      cases closed
      cases run
      cases function with
      | none => exact .done expects opened
      | some f => cases named rfl
    · cases run
  | cons token rest ih =>
    rw [Outline.run] at run
    obtain ⟨⟨later, put⟩, step, run⟩ := bind_eq_ok.mp run
    obtain ⟨remaining, ran, run⟩ := bind_eq_ok.mp run
    cases run
    obtain ⟨move, opens⟩ := Outline.step_move (lexed token (List.mem_cons_self ..))
      (fun some => Option.some.inj (named some)) step
    exact .move move (ih (fun other member => lexed other (List.mem_cons_of_mem _ member)) opens ran)

/-- An operand has to come, or the argument list of the function just named. -/
def Outline.awaits (outline : Outline) : Bool :=
  outline.expectsOperand || outline.function.isSome

theorem Outline.Move.ends {outline later : Outline} {token : Token} {settled : List Token}
    (move : outline.Move token later settled) : token.endsOperand = !later.awaits := by
  cases move with
  | number | sign | binary | leftParen | closeGroup | closeCall | comma => rfl
  | constant known => simp only [Token.endsOperand, known, Option.isSome_some]; rfl
  | @function _ expects _ _ _ function =>
    rw [endsOperand_function function]
    cases expects with
    | true | false => rfl

end Calculator
