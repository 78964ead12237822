import Mathlib.Data.List.Chain
import Calculator.Proofs.GroupContext

namespace Calculator

/-!
A blank token says nothing to a conversion, but it stands between its neighbours. Two tokens care: the
name of a function wants its parenthesis right after it, and a group is empty only if it is closed right
after it has been opened.
-/

/-- A blank may follow: the token does not look at its neighbour. -/
def Token.AdmitsBlank (token : Token) : Prop :=
  token.isFunctionName = false ∧ token ≠ .leftParen

instance (token : Token) : Decidable token.AdmitsBlank :=
  inferInstanceAs (Decidable (_ ∧ _))

/-- No blank stands directly after a token that wants its neighbour. -/
def BlanksApart (tokens : List Token) : Prop :=
  tokens.IsChain fun token next => next = .blank → token.AdmitsBlank

instance (tokens : List Token) : Decidable (BlanksApart tokens) :=
  inferInstanceAs (Decidable (List.IsChain _ _))

def withoutBlanks (tokens : List Token) : List Token :=
  tokens.filter (· != .blank)

theorem withoutBlanks_blank (rest : List Token) : withoutBlanks (.blank :: rest) = withoutBlanks rest :=
  List.filter_cons_of_neg (by simp)

theorem withoutBlanks_cons {token : Token} (other : token ≠ .blank) (rest : List Token) :
    withoutBlanks (token :: rest) = token :: withoutBlanks rest :=
  List.filter_cons_of_pos (by simpa using other)

/-- What follows is the same token, unless it is a blank. -/
theorem head?_withoutBlanks {tokens : List Token} (other : tokens.head? ≠ some .blank) :
    (withoutBlanks tokens).head? = tokens.head? := by
  cases tokens with
  | nil => rfl
  | cons token rest =>
    have other : token ≠ .blank := fun same => other (congrArg some same)
    rw [withoutBlanks_cons other]
    rfl

theorem BlanksApart.head? {token : Token} {rest : List Token} (apart : BlanksApart (token :: rest))
    (neighbour : ¬ token.AdmitsBlank) : rest.head? ≠ some .blank := by
  cases rest with
  | nil => simp
  | cons next rest =>
    intro blank
    exact neighbour ((List.isChain_cons_cons.mp apart).1 (Option.some.inj blank))

theorem BlanksApart.tail {token : Token} {rest : List Token} (apart : BlanksApart (token :: rest)) :
    BlanksApart rest :=
  List.IsChain.tail apart

/-- A blank changes nothing but that the token before it is no parenthesis any more. -/
theorem Conversion.step_blank {state : Conversion} (closed : state.justOpened = false) (next : Option Token) :
    state.step .blank next = .ok (state, []) := by
  obtain ⟨pending, expects, opened, opens⟩ := state
  cases closed
  rfl

/-- Only the token after the name of a function is looked at, and that is no blank. -/
theorem BlanksApart.step_head? {token : Token} {rest : List Token} (apart : BlanksApart (token :: rest))
    (state : Conversion) : state.step token (withoutBlanks rest).head? = state.step token rest.head? := by
  cases function : token.isFunctionName with
  | false => exact Conversion.step_next function _ _
  | true =>
    have neighbour : ¬ token.AdmitsBlank := by
      intro admits
      rw [admits.1] at function
      cases function
    rw [head?_withoutBlanks (apart.head? neighbour)]

/-- Two runs side by side, one over all tokens and one without the blanks. They are in the same state
before every token that both read, and before a blank the state is one that a blank does not change. -/
theorem BlanksApart.run {tokens : List Token} (apart : BlanksApart tokens) {state : Conversion}
    (opened : state.justOpened = true → tokens.head? ≠ some .blank) :
    state.run (withoutBlanks tokens) = state.run tokens := by
  induction tokens generalizing state with
  | nil => rfl
  | cons token rest ih =>
    by_cases blank : token = .blank
    · subst blank
      have closed : state.justOpened = false := by
        cases just : state.justOpened with
        | false => rfl
        | true => exact absurd rfl (opened just)
      rw [withoutBlanks_blank, Conversion.run_cons (Conversion.step_blank closed rest.head?), map_nil_append]
      exact ih apart.tail fun just => absurd just (by simp [closed])
    · rw [withoutBlanks_cons blank, Conversion.run, Conversion.run, apart.step_head? state]
      cases stepped : state.step token rest.head? with
      | error cause => rfl
      | ok result =>
        obtain ⟨after, output⟩ := result
        have same : after.run (withoutBlanks rest) = after.run rest := by
          refine ih apart.tail fun just => apart.head? fun admits => ?_
          exact admits.2 (Conversion.step_justOpened stepped just)
        change (do let outputs ← after.run (withoutBlanks rest); return output ++ outputs) = _
        rw [same]
        rfl

/-- Blanks make no difference to a conversion, neither to its result nor to its error, where none stands
directly after the name of a function or an opening parenthesis. -/
theorem toPostfix_withoutBlanks {tokens : List Token} (apart : BlanksApart tokens) :
    toPostfix (withoutBlanks tokens) = toPostfix tokens :=
  apart.run fun just => absurd just (by simp)

/-- Blanks between all parts of `pow(2, -3)`: the minus is still a sign, and two arguments are counted. -/
theorem toPostfix_withoutBlanks_call :
    BlanksApart [.blank, .name "pow", .leftParen, .number 2, .blank, .blank, .separator, .blank, .operator .sub,
        .blank, .number 3, .blank, .rightParen, .blank] ∧
      toPostfix [.name "pow", .leftParen, .number 2, .separator, .operator .sub, .number 3, .rightParen] =
        toPostfix [.blank, .name "pow", .leftParen, .number 2, .blank, .blank, .separator, .blank, .operator .sub,
          .blank, .number 3, .blank, .rightParen, .blank] ∧
      toPostfix [.name "pow", .leftParen, .number 2, .separator, .operator .sub, .number 3, .rightParen] =
        .ok [.number 2, .number 3, .negate, .call ⟨.pow, 2⟩] := by
  have apart : BlanksApart [.blank, .name "pow", .leftParen, .number 2, .blank, .blank, .separator, .blank,
      .operator .sub, .blank, .number 3, .blank, .rightParen, .blank] := by
    decide
  exact ⟨apart, toPostfix_withoutBlanks apart, rfl⟩

/-- A blank in an empty list of arguments counts as one. -/
example : toPostfix [.name "sin", .leftParen, .blank, .rightParen] = .ok [.call ⟨.sin, 1⟩] ∧
    toPostfix [.name "sin", .leftParen, .rightParen] = .ok [.call ⟨.sin, 0⟩] :=
  ⟨rfl, rfl⟩

end Calculator
