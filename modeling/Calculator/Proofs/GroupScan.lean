import Calculator.Proofs.Outline

namespace Calculator

/-- What one token does to the open groups, the innermost first, each marked whether it is the argument
list of a call. `named` tells that the token before was the name of a function. Numbers and operators
do nothing. -/
def scanStep (groups : List Bool) (named : Bool) (token : Token) (next : Option Token) :
    Except SyntaxError (List Bool × Bool) :=
  match token with
  | .name text =>
    if (Builtin.ofName? text).isSome then
      if next = some .leftParen then .ok (groups, true) else .error (.expectedArguments text)
    else if (constant? text).isSome then .ok (groups, false)
    else .error (.unknownIdentifier text)
  | .leftParen => .ok (named :: groups, false)
  | .rightParen => if groups = [] then .error .unbalancedParentheses else .ok (groups.tail, false)
  | .separator => if groups.head? = some true then .ok (groups, false) else .error .misplacedSeparator
  | .number _ | .operator _ | .negate | .call _ | .blank => .ok (groups, false)

/-- Looks for the leftmost fault in the groups, the commas and the names of a token list. -/
def scanGroups (groups : List Bool) (named : Bool) : List Token → Except SyntaxError Unit
  | [] => if groups = [] then .ok () else .error .unbalancedParentheses
  | token :: rest => do
    let (groups, named) ← scanStep groups named token rest.head?
    scanGroups groups named rest

/-- The marks of the open groups. -/
def Outline.marks (outline : Outline) : List Bool :=
  outline.groups.map Option.isSome

theorem Outline.step_scan (outline : Outline) {token : Token}
    (named : outline.function.isSome = true → token = .leftParen) (next : Option Token) :
    Agree (fun later scanned => scanned = (later.1.marks, later.1.function.isSome) ∧
        (later.1.function.isSome = true → next = some .leftParen))
      (outline.step token next) (scanStep outline.marks outline.function.isSome token next) := by
  obtain ⟨groups, function, expects, opened⟩ := outline
  cases function with
  | some f =>
    cases named rfl
    exact .ok ⟨rfl, by simp⟩
  | none =>
    cases token with
    | number | call | negate | blank | leftParen => exact .ok ⟨rfl, by simp⟩
    | operator op =>
      by_cases sign : op = .sub ∧ expects = true
      · simp only [Outline.step, Outline.read, if_pos sign]
        exact .ok ⟨rfl, by simp⟩
      · simp only [Outline.step, Outline.read, if_neg sign]
        exact .ok ⟨rfl, by simp⟩
    | name text =>
      simp only [Outline.step, Outline.read, Outline.readName, scanStep]
      cases Builtin.ofName? text with
      | some f =>
        by_cases opens : next = some .leftParen
        · simp only [if_pos opens]
          exact .ok ⟨rfl, fun _ => opens⟩
        · simp only [if_neg opens]
          exact .error _
      | none =>
        cases constant? text with
        | some value => exact .ok ⟨rfl, by simp⟩
        | none => exact .error _
    | rightParen =>
      cases groups with
      | nil => exact .error _
      | cons group outer =>
        cases group with
        | none | some => exact .ok ⟨rfl, by simp⟩
    | separator =>
      cases groups with
      | nil => exact .error _
      | cons group outer =>
        cases group with
        | none => exact .error _
        | some => exact .ok ⟨rfl, by simp⟩

theorem Outline.run_scan (outline : Outline) {tokens : List Token}
    (named : outline.function.isSome = true → tokens.head? = some .leftParen) :
    (outline.run tokens).map (fun _ => ()) = scanGroups outline.marks outline.function.isSome tokens := by
  induction tokens generalizing outline with
  | nil =>
    by_cases closed : outline.groups = []
    · simp only [Outline.run, scanGroups, Outline.marks, closed, if_true, List.map_nil]
      rfl
    · simp only [Outline.run, scanGroups, Outline.marks, List.map_eq_nil_iff, if_neg closed]
      rfl
  | cons token rest ih =>
    have first : outline.function.isSome = true → token = .leftParen := fun some =>
      Option.some.inj (named some)
    have stepped := outline.step_scan first rest.head?
    rw [Outline.run, scanGroups]
    generalize outline.step token rest.head? = ended at stepped ⊢
    generalize scanStep outline.marks outline.function.isSome token rest.head? = scanned at stepped ⊢
    cases stepped with
    | error => rfl
    | @ok later marks both =>
      obtain ⟨rfl, expected⟩ := both
      have after := ih later.1 expected
      change _ = scanGroups later.1.marks later.1.function.isSome rest
      rw [← after]
      change ((later.1.run rest).map (later.2 ++ ·)).map (fun _ => ()) = _
      cases later.1.run rest with
      | error | ok => rfl

/-- A conversion ends as the scan of its groups does: with the error of the leftmost fault, or for want
of a closing parenthesis, or else with a postfix order. -/
theorem toPostfix_fault (tokens : List Token) :
    (toPostfix tokens).map (fun _ => ()) = scanGroups [] false tokens := by
  have scanned := Outline.run_scan {} (fun named => absurd named (by simp) : _ → tokens.head? = _)
  have converted := toPostfix_outline tokens
  generalize Outline.run {} tokens = settled at scanned converted
  generalize toPostfix tokens = output at converted ⊢
  cases converted with
  | error | ok => exact scanned

end Calculator
