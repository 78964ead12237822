import Calculator.Proofs.LeftContext
import Calculator.Proofs.OutlineMoves
import Calculator.Proofs.StackDepth

namespace Calculator

/-- The commas in open argument lists. -/
def openCommas : List (Option (Builtin × Nat)) → Int
  | [] => 0
  | none :: outer => openCommas outer
  | some (_, commas) :: outer => commas + openCommas outer

/-- By how much the rest of a text still has to raise the number of values. An open call takes one for
each comma in it, besides the one that it gives back. -/
def Outline.due (outline : Outline) : Int :=
  outline.awaits.toNat - openCommas outline.groups

theorem openCommas_cons_zero (function : Option Builtin) (groups : List (Option (Builtin × Nat))) :
    openCommas (function.map (·, 0) :: groups) = openCommas groups := by
  cases function with
  | none => rfl
  | some f => exact Int.zero_add _

theorem Outline.due_named (groups : List (Option (Builtin × Nat))) (f : Builtin) (expects opened : Bool) :
    Outline.due ⟨groups, some f, expects, opened⟩ = 1 - openCommas groups := by
  cases expects with
  | true | false => rfl

section Place

variable {before : Token} {awaits : Bool} (ends : before.endsOperand = !awaits)
include ends

theorem place_of_starts (token : Token) (starts : token.startsOperand = true)
    (follows : token.followsOperand = false) :
    (before.lacks token).toNat + 1 = (before.exceeds token).toNat + awaits.toNat := by
  rw [Token.lacks, Token.exceeds, ends, starts, follows]
  cases awaits with
  | true | false => rfl

theorem place_of_follows (token : Token) (starts : token.startsOperand = false)
    (follows : token.followsOperand = true) :
    (before.lacks token).toNat = (before.exceeds token).toNat + awaits.toNat := by
  rw [Token.lacks, Token.exceeds, ends, starts, follows]
  cases awaits with
  | true | false => rfl

/-- A minus follows an operand too unless it is a sign. -/
theorem place_of_binary {op : Operator} (binary : ¬(op = .sub ∧ awaits = true)) :
    (before.lacks (.operator op)).toNat = (before.exceeds (.operator op)).toNat + awaits.toNat := by
  cases awaits with
  | true => exact place_of_follows ends (.operator op) rfl (bne_iff_ne.mpr fun same => binary ⟨same, rfl⟩)
  | false =>
    rw [Token.lacks, Token.exceeds, ends]
    rfl

end Place

/-- What a token settles is what was due, save for an operand too many before it or one too few. -/
theorem Outline.Move.balance {outline later : Outline} {before token : Token} {settled : List Token}
    (move : outline.Move token later settled) (ends : before.endsOperand = !outline.awaits)
    (counted : ∀ f, .call ⟨f, 0⟩ ∉ settled) :
    totalGain settled + later.due + (before.lacks token).toNat = outline.due + (before.exceeds token).toNat := by
  cases move with
  | @number groups _ _ value =>
    have place := place_of_starts ends (.number value) rfl rfl
    change (1 + 0 : Int) + (0 - openCommas groups) + _ = _ - openCommas groups + _
    omega
  | @constant groups _ _ name =>
    have place := place_of_starts ends (.name name) rfl rfl
    change (1 + 0 : Int) + (0 - openCommas groups) + _ = _ - openCommas groups + _
    omega
  | @function groups _ _ name =>
    have place := place_of_starts ends (.name name) rfl rfl
    rw [Outline.due_named]
    change (0 : Int) + _ + _ = _ - openCommas groups + _
    omega
  | @sign groups =>
    have present : before.lacks (.operator .sub) = false := Bool.and_false _
    have single : before.exceeds (.operator .sub) = false := Bool.and_false _
    rw [present, single]
    change (0 + 0 : Int) + (1 - openCommas groups) + 0 = 1 - openCommas groups + 0
    omega
  | @binary groups expects opened op binary =>
    have place := place_of_binary ends (by simpa [Outline.awaits] using binary)
    change (-1 + 0 : Int) + (1 - openCommas groups) + _ = _ - openCommas groups + _
    omega
  | @leftParen groups expects opened function =>
    have place := place_of_starts ends .leftParen rfl rfl
    have same := openCommas_cons_zero function groups
    change (0 : Int) + (1 - openCommas (function.map (·, 0) :: groups)) + _ = _ - openCommas groups + _
    omega
  | @closeGroup outer =>
    have place := place_of_follows ends .rightParen rfl rfl
    change (0 : Int) + (0 - openCommas outer) + _ = _ - openCommas outer + _
    omega
  | @closeCall outer expects opened f commas =>
    cases opened with
    | true => exact absurd (List.mem_singleton.mpr rfl) (counted f)
    | false =>
      have place := place_of_follows ends .rightParen rfl rfl
      change (1 - ((commas + 1 : Nat) : Int) + 0) + (0 - openCommas outer) + _ = _ - (commas + openCommas outer) + _
      omega
  | @comma outer expects opened f commas =>
    have place := place_of_follows ends .separator rfl rfl
    change (0 : Int) + (1 - ((commas + 1 : Nat) + openCommas outer)) + _ = _ - (commas + openCommas outer) + _
    omega

/-- A text settles one value for each operand that is due, with those too many and without those too few. -/
theorem Outline.Walk.balance {outline : Outline} {before : Token} {tokens settled : List Token}
    (walk : outline.Walk tokens settled) (ends : before.endsOperand = !outline.awaits)
    (counted : ∀ f, .call ⟨f, 0⟩ ∉ settled) :
    totalGain settled + missingOperands before tokens = outline.due + extraOperands before tokens := by
  induction walk generalizing before with
  | done expects =>
    rw [missingOperands, ends]
    cases expects with
    | true | false => rfl
  | move move _ ih =>
    have settles := move.balance ends fun f member => counted f (List.mem_append_left _ member)
    have others := ih move.ends fun f member => counted f (List.mem_append_right _ member)
    rw [totalGain_append, missingOperands, extraOperands]
    omega

/-- What has been read goes on to an infix expression, with an operand or without one as the outline
has it. -/
inductive Outline.Viable : Outline → List Token → Prop
  | leads {groups read} (opened) : Leads (Starts groups) read → Viable ⟨groups, none, true, opened⟩ read
  | holds {groups read} (opened) : Holds (Starts groups) read → Viable ⟨groups, none, false, opened⟩ read
  | named {groups read name f} (opened) : Builtin.ofName? name = some f → Leads (Starts groups) read →
      Viable ⟨groups, some f, true, opened⟩ (read ++ [.name name])

theorem Outline.Move.viable {outline later : Outline} {before token : Token} {settled read : List Token}
    (move : outline.Move token later settled) (ends : before.endsOperand = !outline.awaits)
    (present : before.lacks token = false) (single : before.exceeds token = false)
    (viable : outline.Viable read) : later.Viable (read ++ [token]) := by
  rw [Token.lacks, ends] at present
  rw [Token.exceeds, ends] at single
  cases viable with
  | leads opened leads =>
    cases move with
    | number value => exact .holds false (leads.primary (.number value))
    | constant known => exact .holds false (leads.primary (.constant known))
    | function function => exact .named false function leads
    | sign => exact .leads false leads.sign
    | @binary _ _ _ op binary =>
      have other : (op != .sub) = true := bne_iff_ne.mpr fun same => binary ⟨same, rfl⟩
      simp [Outline.awaits, Token.followsOperand, other] at present
    | leftParen => exact .leads true leads.openGroup
    | closeGroup | closeCall | comma => cases present
  | holds opened holds =>
    cases move with
    | number | constant | function | leftParen => cases single
    | binary => exact .leads false (holds.operator _)
    | closeGroup => exact .holds false holds.closeGroup
    | closeCall => exact .holds false holds.closeCall
    | comma => exact .leads false holds.comma
  | named opened function leads =>
    cases move with
    | leftParen => exact .leads true (leads.openCall function)

theorem Outline.Walk.derives {outline : Outline} {before : Token} {tokens settled read : List Token}
    (walk : outline.Walk tokens settled) (ends : before.endsOperand = !outline.awaits)
    (present : missingOperands before tokens = 0) (single : extraOperands before tokens = 0)
    (viable : outline.Viable read) : ∃ t, Derives .expr (read ++ tokens) t := by
  induction walk generalizing before read with
  | done expects opened =>
    rw [List.append_nil]
    cases viable with
    | leads =>
      rw [missingOperands, ends] at present
      cases present
    | holds opened holds =>
      obtain ⟨start, body, t, rfl, derived, begun⟩ := holds
      cases begun
      exact ⟨t, derived⟩
  | @move _ _ token rest _ _ move _ ih =>
    rw [missingOperands, Nat.add_eq_zero_iff, Bool.toNat_eq_zero] at present
    rw [extraOperands, Nat.add_eq_zero_iff, Bool.toNat_eq_zero] at single
    have next := move.viable ends present.1 single.1 viable
    have derived := ih move.ends present.2 single.2 next
    simpa only [List.append_assoc, List.cons_append, List.nil_append] using derived

/-- A text that has a value lacks as many operands as it has too many. So it is an infix expression as soon
as no operand directly follows another. -/
theorem operands_balance_of_evaluate {source : String} {x : Float} (run : evaluate source = .ok x) :
    ∃ tokens, tokenize source = .ok tokens ∧
      missingOperands .leftParen tokens = extraOperands .leftParen tokens ∧
      ((∃ t, Derives .expr tokens t) ↔ extraOperands .leftParen tokens = 0) := by
  obtain ⟨tokens, output, value, lexed, converted, evaluated, _⟩ := evaluate_stages run
  obtain ⟨gain, counted⟩ := evalPostfix_gain evaluated
  have agree := toPostfix_outline tokens
  rw [converted] at agree
  generalize outlined : Outline.run {} tokens = result at agree
  cases agree with
  | @ok _ settled perm =>
    have noEmpty : ∀ f, .call ⟨f, 0⟩ ∉ settled := by
      intro f member
      have arity := counted f 0 (perm.mem_iff.mpr member)
      cases f <;> cases arity
    have walk := Outline.run_walk (tokensFrom_isLexed lexed) (by simp) outlined
    have ends : Token.leftParen.endsOperand = !(Outline.awaits {}) := rfl
    have due : Outline.due {} = 1 := rfl
    have balance := walk.balance ends noEmpty
    rw [← totalGain_perm perm, gain, due] at balance
    have same : missingOperands .leftParen tokens = extraOperands .leftParen tokens := by omega
    refine ⟨tokens, lexed, same, ?_, ?_⟩
    · rintro ⟨t, derived⟩
      exact derived.no_extraOperands
    · intro single
      have start : Outline.Viable {} [] := .leads false (leads_of_starts rfl)
      exact walk.derives ends (same.trans single) single start

theorem operands_balance_of_signed_product :
    evaluate "(1 + 2) * -abs(3 - 5)" = .ok (-6) ∧
    ∃ tokens, tokenize "(1 + 2) * -abs(3 - 5)" = .ok tokens ∧
      missingOperands .leftParen tokens = extraOperands .leftParen tokens ∧
      ((∃ t, Derives .expr tokens t) ↔ extraOperands .leftParen tokens = 0) := by
  have run : evaluate "(1 + 2) * -abs(3 - 5)" = .ok (-6) := by decide +kernel
  exact ⟨run, operands_balance_of_evaluate run⟩

/-- An operator after both of its operands. -/
theorem evaluate_operator_last :
    tokenize "2 3 +" = .ok [.number 2, .number 3, .operator .add] ∧ evaluate "2 3 +" = .ok 5 ∧
    ¬∃ t, Derives .expr [.number 2, .number 3, .operator .add] t := by
  refine ⟨by decide +kernel, by decide +kernel, ?_⟩
  rintro ⟨t, derived⟩
  cases derived.no_extraOperands

end Calculator
