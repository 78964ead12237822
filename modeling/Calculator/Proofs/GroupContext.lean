import Mathlib.Data.List.Forall2
import Calculator.Proofs.Outline

namespace Calculator

/-!
What stands in parentheses is converted as if it stood alone. Nothing inside looks at the stack below
the open parenthesis, and after the closing one the conversion goes on as after a single operand.
-/

def Token.isFunctionName : Token → Bool
  | .name text => (Builtin.ofName? text).isSome
  | .number _ | .operator _ | .negate | .leftParen | .rightParen | .separator | .call _ | .blank => false

/-! ### What a step looks at -/

/-- Only the name of a function looks at the token after it. -/
theorem Conversion.step_next {state : Conversion} {token : Token} (plain : token.isFunctionName = false)
    (next other : Option Token) : state.step token next = state.step token other := by
  cases token with
  | name text =>
    simp only [Token.isFunctionName, Option.isSome_eq_false_iff, Option.isNone_iff_eq_none] at plain
    simp only [Conversion.step, Conversion.read, Conversion.readName, plain]
  | number | operator | negate | leftParen | rightParen | separator | call | blank => rfl

theorem Conversion.step_end {state : Conversion} {token : Token} {result : Conversion × List Token}
    (stepped : state.step token none = .ok result) : token.isFunctionName = false := by
  cases token with
  | name text =>
    cases function : Builtin.ofName? text with
    | some f =>
      simp only [Conversion.step, Conversion.read, Conversion.readName, function] at stepped
      cases stepped
    | none => simp only [Token.isFunctionName, function, Option.isSome_none]
  | number | operator | negate | leftParen | rightParen | separator | call | blank => rfl

theorem Conversion.step_justOpened {state after : Conversion} {token : Token} {next : Option Token}
    {output : List Token} (stepped : state.step token next = .ok (after, output))
    (opened : after.justOpened = true) : token = .leftParen := by
  obtain ⟨result, _, same⟩ := bind_eq_ok.mp stepped
  cases same
  exact eq_of_beq opened

/-- A step agrees with the outline, so its result has an outline again. -/
theorem Conversion.Outlined.next {state after : Conversion} {outline : Outline}
    (outlined : state.Outlined outline) {token : Token} {next : Option Token} {output : List Token}
    (named : outline.function.isSome = true → token = .leftParen)
    (stepped : state.step token next = .ok (after, output)) :
    ∃ later : Outline, after.Outlined later ∧ (later.function.isSome = true → next = some .leftParen) := by
  have agree := outlined.step named next
  rw [stepped] at agree
  generalize outline.step token next = settled at agree
  cases agree with
  | ok follows => exact ⟨_, follows.1, follows.2.1⟩

/-- Once a prefix has been read, what follows makes no difference to what became of it. -/
theorem Conversion.Outlined.prefix {state : Conversion} {outline : Outline} (outlined : state.Outlined outline)
    {tokens : List Token} (named : outline.function.isSome = true → tokens.head? = some .leftParen)
    (plain : ∀ token ∈ tokens.getLast?, token.isFunctionName = false) :
    (∃ cause, ∀ rest, state.run (tokens ++ rest) = .error cause) ∨
      ∃ pending expects opened output, state.Reads tokens ⟨pending, expects, opened, false⟩ output := by
  induction tokens generalizing state outline with
  | nil =>
    cases outlined with
    | named => exact absurd (named rfl) (by simp)
    | between expects opened => exact .inr ⟨_, expects, opened, [], .nil _⟩
  | cons token rest ih =>
    have first : outline.function.isSome = true → token = .leftParen := fun some => Option.some.inj (named some)
    have ahead : ∀ following, state.step token (rest ++ following).head? = state.step token rest.head? := by
      intro following
      cases rest with
      | nil => exact Conversion.step_next (plain token rfl) _ _
      | cons => rfl
    have later : ∀ other ∈ rest.getLast?, other.isFunctionName = false := by
      intro other last
      cases rest with
      | nil => cases last
      | cons => exact plain other last
    cases stepped : state.step token rest.head? with
    | error cause =>
      left
      refine ⟨cause, fun following => ?_⟩
      rw [List.cons_append, Conversion.run, ahead, stepped]
      rfl
    | ok result =>
      obtain ⟨after, output⟩ := result
      obtain ⟨shape, inside, expected⟩ := outlined.next first stepped
      have runs : ∀ following,
          state.run (token :: (rest ++ following)) = (after.run (rest ++ following)).map (output ++ ·) := by
        intro following
        exact Conversion.run_cons ((ahead following).trans stepped)
      rcases ih inside expected later with ⟨cause, fails⟩ | ⟨pending, expects, opened, more, reads⟩
      · left
        refine ⟨cause, fun following => ?_⟩
        rw [List.cons_append, runs, fails]
        rfl
      · right
        refine ⟨pending, expects, opened, output ++ more, fun following => ?_⟩
        rw [List.cons_append, runs, reads, map_map_append]

/-! ### Inside a group -/

/-- A conversion with more entries under its stack. -/
def Conversion.onTop (below : List Pending) (state : Conversion) : Conversion :=
  { state with pending := state.pending ++ below }

section Inside

variable (call : Bool) (count : Nat) (under : List Pending)

theorem pushBinary_onTop (op : Operator) (pending : List Pending) :
    pushBinary op (pending ++ .group call count :: under) =
      ((pushBinary op pending).1 ++ .group call count :: under, (pushBinary op pending).2) := by
  have stays : (Pending.group call count).goesBefore op = false := rfl
  have operators : ∀ entry ∈ pending.takeWhile (·.goesBefore op), entry.goesBefore op = true := fun entry member =>
    List.mem_takeWhile_imp (p := fun entry : Pending => entry.goesBefore op) member
  have whole := List.takeWhile_append_dropWhile (p := fun entry : Pending => entry.goesBefore op) (l := pending)
  have top : ∀ entry ∈ (pending.dropWhile (·.goesBefore op) ++ Pending.group call count :: under).head?,
      entry.goesBefore op = false := by
    have first := List.head?_dropWhile_not (fun entry : Pending => entry.goesBefore op) pending
    cases rest : pending.dropWhile (·.goesBefore op) with
    | nil =>
      rintro entry ⟨⟩
      exact stays
    | cons entry more =>
      rw [rest] at first
      rintro entry ⟨⟩
      exact first
  have pushed := pushBinary_held operators top
  rw [← List.append_assoc, whole] at pushed
  exact pushed

theorem close_onTop {pending rest : List Pending} {groups : List (Option (Builtin × Nat))} {output : List Token}
    (nested : Nested pending groups) {empty : Bool} (closed : close empty pending = .ok (rest, output)) :
    close empty (pending ++ .group call count :: under) = .ok (rest ++ .group call count :: under, output) := by
  obtain ⟨held, below, rfl, operators, shape⟩ := nested.innermost
  rcases shape with ⟨rfl, rfl⟩ | ⟨commas, rest, outer, rfl, rfl, inner⟩ | ⟨f, commas, rest, outer, rfl, rfl, inner⟩
  · rw [List.append_nil, close_outside operators] at closed
    cases closed
  · rw [close_plain operators] at closed
    cases closed
    rw [List.append_assoc, List.cons_append, close_plain operators]
  · rw [close_call operators] at closed
    cases closed
    rw [List.append_assoc, List.cons_append, List.cons_append, close_call operators]

theorem separate_onTop {pending rest : List Pending} {groups : List (Option (Builtin × Nat))}
    {output : List Token} (nested : Nested pending groups)
    (separated : separate pending = .ok (rest, output)) :
    separate (pending ++ .group call count :: under) = .ok (rest ++ .group call count :: under, output) := by
  obtain ⟨held, below, rfl, operators, shape⟩ := nested.innermost
  rcases shape with ⟨rfl, rfl⟩ | ⟨commas, rest, outer, rfl, rfl, inner⟩ | ⟨f, commas, rest, outer, rfl, rfl, inner⟩
  · rw [List.append_nil, separate_outside operators] at separated
    cases separated
  · rw [separate_plain operators] at separated
    cases separated
  · rw [separate_call operators] at separated
    cases separated
    rw [List.append_assoc, List.cons_append, separate_call operators]
    rfl

/-- Nothing inside a group looks below its parenthesis. -/
theorem Conversion.Outlined.read_onTop {state : Conversion} {outline : Outline}
    (outlined : state.Outlined outline) {token : Token} {next : Option Token} {result : Conversion × List Token}
    (named : outline.function.isSome = true → token = .leftParen)
    (stepped : state.read token next = .ok result) :
    (state.onTop (.group call count :: under)).read token next =
      .ok (result.1.onTop (.group call count :: under), result.2) := by
  cases outlined with
  | @named pending groups f expects opened nested =>
    cases named rfl
    cases stepped
    rfl
  | @between pending groups expects opened nested =>
    cases token with
    | number | call | negate | leftParen | blank =>
      cases stepped
      rfl
    | name text =>
      simp only [Conversion.read, Conversion.readName, Conversion.onTop] at stepped ⊢
      split at stepped
      · split at stepped
        · next opens =>
          cases stepped
          rw [if_pos opens]
          rfl
        · cases stepped
      · split at stepped
        · cases stepped
          rfl
        · cases stepped
    | operator op =>
      simp only [Conversion.read] at stepped
      split at stepped
      · next sign =>
        cases stepped
        exact if_pos sign
      · next binary =>
        cases stepped
        have pushed := pushBinary_onTop call count under op pending
        refine (if_neg binary).trans ?_
        exact congrArg (fun pushed : List Pending × List Token =>
          Except.ok (Conversion.mk pushed.1 true opened false, pushed.2)) pushed
    | rightParen =>
      obtain ⟨⟨rest, output⟩, closed, same⟩ := bind_eq_ok.mp stepped
      cases same
      simp only [Conversion.read, Conversion.onTop, close_onTop call count under nested closed]
      rfl
    | separator =>
      obtain ⟨⟨rest, output⟩, separated, same⟩ := bind_eq_ok.mp stepped
      cases same
      simp only [Conversion.read, Conversion.onTop, separate_onTop call count under nested separated]
      rfl

theorem Conversion.Outlined.step_onTop {state after : Conversion} {outline : Outline}
    (outlined : state.Outlined outline) {token : Token} {next : Option Token} {output : List Token}
    (named : outline.function.isSome = true → token = .leftParen)
    (stepped : state.step token next = .ok (after, output)) :
    (state.onTop (.group call count :: under)).step token next =
      .ok (after.onTop (.group call count :: under), output) := by
  obtain ⟨result, read, same⟩ := bind_eq_ok.mp stepped
  cases same
  rw [Conversion.step, outlined.read_onTop call count under named read]
  rfl

/-- What converts by itself converts in the same way inside a group: what is put out and what is still
held are together the same postfix order. -/
theorem Conversion.Outlined.reads_inside {state : Conversion} {outline : Outline}
    (outlined : state.Outlined outline)
    {tokens output : List Token} (named : outline.function.isSome = true → tokens.head? = some .leftParen)
    (ran : state.run tokens = .ok output) :
    ∃ held expects opened first, (∀ entry ∈ held, entry.isOperator = true) ∧
      (state.onTop (.group call count :: under)).Reads tokens
        ⟨held ++ .group call count :: under, expects, opened, false⟩ first ∧
      first ++ held.flatMap Pending.flush = output ∧
      (opened = true → tokens = [] ∧ state.justOpened = true) := by
  induction tokens generalizing state outline output with
  | nil =>
    cases outlined with
    | named => exact absurd (named rfl) (by simp)
    | @between pending groups expects opened nested =>
      obtain ⟨held, below, rfl, operators, shape⟩ := nested.innermost
      rw [Conversion.run] at ran
      rcases shape with ⟨rfl, rfl⟩ | ⟨commas, rest, outer, rfl, rfl, _⟩ | ⟨f, commas, rest, outer, rfl, rfl, _⟩
      · rw [List.append_nil, finish_outside operators] at ran
        cases ran
        refine ⟨held, expects, opened, [], operators, ?_, rfl, fun ended => ⟨rfl, ended⟩⟩
        rw [List.append_nil]
        exact .nil _
      · rw [finish_group] at ran
        cases ran
      · rw [finish_group] at ran
        cases ran
  | cons token rest ih =>
    have start : outline.function.isSome = true → token = .leftParen := fun some => Option.some.inj (named some)
    obtain ⟨⟨after, early⟩, stepped, others⟩ := bind_eq_ok.mp ran
    obtain ⟨late, ranRest, same⟩ := bind_eq_ok.mp others
    cases same
    obtain ⟨shape, inside, expected⟩ := outlined.next start stepped
    obtain ⟨held, expects, opened, first, operators, reads, whole, last⟩ := ih inside expected ranRest
    have ahead : ∀ following, (state.onTop (.group call count :: under)).step token (rest ++ following).head? =
        .ok (after.onTop (.group call count :: under), early) := by
      intro following
      have stepped := outlined.step_onTop call count under start stepped
      cases rest with
      | nil => exact (Conversion.step_next (Conversion.step_end stepped) _ _).trans stepped
      | cons => exact stepped
    refine ⟨held, expects, opened, early ++ first, operators, fun following => ?_, ?_, fun ended => ?_⟩
    · rw [List.cons_append, Conversion.run_cons (ahead following), reads, map_map_append]
    · rw [List.append_assoc, whole]
    · obtain ⟨rfl, just⟩ := last ended
      have parenthesis := Conversion.step_justOpened stepped just
      subst parenthesis
      cases stepped
      cases ranRest

end Inside

/-- At the start it makes no difference whether a parenthesis has just been opened. -/
theorem run_justOpened (opened : Bool) (tokens : List Token) :
    Conversion.run { justOpened := opened } tokens = toPostfix tokens := by
  cases tokens with
  | nil => rfl
  | cons token rest =>
    have same : Conversion.step { justOpened := opened } token rest.head? =
        Conversion.step {} token rest.head? := by
      cases token with
      | name text =>
        simp only [Conversion.step, Conversion.read, Conversion.readName]
        cases Builtin.ofName? text with
        | some f =>
          simp only
          split <;> rfl
        | none => cases constant? text <;> rfl
      | operator op =>
        simp only [Conversion.step, Conversion.read]
        split <;> rfl
      | number | negate | leftParen | rightParen | separator | call | blank => rfl
    rw [toPostfix, Conversion.run, same]
    rfl

/-- In every state the piece is read as a number would be, apart from what it puts out. -/
def ReadsAsOperand (piece output : List Token) : Prop :=
  ∀ pending expects opened, Conversion.Reads ⟨pending, expects, opened, false⟩ piece
    { pending := pending, expectsOperand := false } output

theorem readsAsOperand_number (x : Float) : ReadsAsOperand [.number x] [.number x] := fun pending expects opened =>
  reads_number pending expects opened x

section Replacement

variable {tokens output : List Token} (converted : toPostfix tokens = .ok output)
include converted

theorem reads_part (call : Bool) (count : Nat) (under : List Pending) (opened : Bool) :
    ∃ held expects last first, (∀ entry ∈ held, entry.isOperator = true) ∧
      Conversion.Reads ⟨.group call count :: under, true, opened, false⟩ tokens
        ⟨held ++ .group call count :: under, expects, last, false⟩ first ∧
      first ++ held.flatMap Pending.flush = output ∧ (last = true → tokens = [] ∧ opened = true) := by
  have outlined : Conversion.Outlined { justOpened := opened } { justOpened := opened } :=
    .between true opened .nil
  exact outlined.reads_inside call count under (by simp) ((run_justOpened opened tokens).trans converted)

theorem reads_group : ReadsAsOperand ([.leftParen] ++ tokens ++ [.rightParen]) output := by
  intro pending expects opened
  obtain ⟨held, state, last, first, operators, reads, whole, _⟩ := reads_part converted false 0 pending true
  have opens := reads_open pending expects opened
  have closes := reads_close operators pending 0 state last
  have all := (opens.append reads).append closes
  rwa [List.nil_append, whole] at all

end Replacement

/-- Parts with commas between them are converted one after the other. -/
theorem reads_parts {parts outputs : List (List Token)}
    (converted : List.Forall₂ (fun part output => toPostfix part = .ok output) parts outputs) (some : parts ≠ [])
    (count : Nat) (under : List Pending) (opened : Bool) :
    ∃ held expects last first, (∀ entry ∈ held, entry.isOperator = true) ∧
      Conversion.Reads ⟨.group true count :: under, true, opened, false⟩ (List.intercalate [.separator] parts)
        ⟨held ++ .group true (count + (parts.length - 1)) :: under, expects, last, false⟩ first ∧
      first ++ held.flatMap Pending.flush = outputs.flatten ∧ (last = true → parts = [[]] ∧ opened = true) := by
  induction converted generalizing count opened with
  | nil => exact absurd rfl some
  | @cons part output parts outputs first others ih =>
    obtain ⟨held, expects, last, early, operators, reads, whole, empty⟩ := reads_part first true count under opened
    cases others with
    | nil =>
      refine ⟨held, expects, last, early, operators, ?_, ?_, fun ended => ?_⟩
      · rw [List.intercalate_singleton]
        exact reads
      · rw [List.flatten_cons, List.flatten_nil, List.append_nil]
        exact whole
      · obtain ⟨rfl, just⟩ := empty ended
        exact ⟨rfl, just⟩
    | @cons next other parts outputs second others =>
      obtain ⟨held', expects', last', early', operators', reads', whole', empty'⟩ := ih (by simp) (count + 1) false
      have comma := reads_comma operators under count expects last
      have all := (reads.append comma).append reads'
      have counted : count + 1 + ((next :: parts).length - 1) = count + ((part :: next :: parts).length - 1) := by
        simp only [List.length_cons]
        omega
      rw [counted, whole] at all
      refine ⟨held', expects', last', output ++ early', operators', ?_, ?_, fun ended => ?_⟩
      · rw [List.intercalate_cons_cons]
        exact all
      · rw [List.flatten_cons, List.append_assoc, whole']
      · exact absurd (empty' ended).2 Bool.false_ne_true

theorem reads_call {parts outputs : List (List Token)}
    (converted : List.Forall₂ (fun part output => toPostfix part = .ok output) parts outputs) (some : parts ≠ [])
    (written : parts ≠ [[]]) (f : Builtin) :
    ReadsAsOperand ([.name f.name, .leftParen] ++ List.intercalate [.separator] parts ++ [.rightParen])
      (outputs.flatten ++ [.call ⟨f, parts.length⟩]) := by
  intro pending expects opened
  obtain ⟨held, state, last, first, operators, reads, whole, empty⟩ :=
    reads_parts converted some 0 (.function f :: pending) true
  have function : Builtin.ofName? f.name = .some f := by cases f <;> rfl
  have opens := reads_function pending expects opened function
  have closes := reads_endCall operators pending (0 + (parts.length - 1)) f state last
  have all := (opens.append reads).append closes
  have positive := List.length_pos_iff.mpr some
  have arguments : 0 + (parts.length - 1) + 1 = parts.length := by omega
  rw [List.nil_append, ← List.append_assoc, whole, if_neg fun ended => written (empty ended).1,
    arguments] at all
  exact all

/-- Between these tokens a piece does what a single number does there: the conversion fails in the same
way, or it puts out the same with something else in the place of the number. -/
def ActsAsNumber (before after piece output : List Token) : Prop :=
  (∃ cause, (∀ x, toPostfix (before ++ [.number x] ++ after) = .error cause) ∧
    toPostfix (before ++ piece ++ after) = .error cause) ∨
  ∃ early late, (∀ x, toPostfix (before ++ [.number x] ++ after) = .ok (early ++ [.number x] ++ late)) ∧
    toPostfix (before ++ piece ++ after) = .ok (early ++ output ++ late)

/-- Between the same tokens all operands fare alike: they fail with one error, or they put out what they put
out by themselves between the same tokens again. -/
theorem operands_alike {before : List Token}
    (plain : ∀ token ∈ before.getLast?, token.isFunctionName = false) (after : List Token) :
    (∃ cause, ∀ piece output, ReadsAsOperand piece output → toPostfix (before ++ piece ++ after) = .error cause) ∨
      ∃ early late, ∀ piece output, ReadsAsOperand piece output →
        toPostfix (before ++ piece ++ after) = .ok (early ++ output ++ late) := by
  have start : Conversion.Outlined {} {} := .between true false .nil
  rcases start.prefix (by simp) plain with ⟨cause, fails⟩ | ⟨pending, expects, opened, early, readsBefore⟩
  · left
    refine ⟨cause, fun piece output _ => ?_⟩
    rw [List.append_assoc]
    exact fails _
  · have whole : ∀ piece output, ReadsAsOperand piece output → toPostfix (before ++ piece ++ after) =
        (Conversion.run { pending := pending, expectsOperand := false } after).map ((early ++ output) ++ ·) :=
      fun piece output reads => (readsBefore.append (reads pending expects opened)) after
    cases ended : Conversion.run { pending := pending, expectsOperand := false } after with
    | error cause =>
      left
      refine ⟨cause, fun piece output reads => ?_⟩
      rw [whole piece output reads, ended]
      rfl
    | ok late =>
      right
      refine ⟨early, late, fun piece output reads => ?_⟩
      rw [whole piece output reads, ended]
      rfl

theorem actsAsNumber {before piece output : List Token}
    (plain : ∀ token ∈ before.getLast?, token.isFunctionName = false) (after : List Token)
    (reads : ReadsAsOperand piece output) : ActsAsNumber before after piece output := by
  rcases operands_alike plain after with ⟨cause, fails⟩ | ⟨early, late, converts⟩
  · exact .inl ⟨cause, fun x => fails _ _ (readsAsOperand_number x), fails _ _ reads⟩
  · exact .inr ⟨early, late, fun x => converts _ _ (readsAsOperand_number x), converts _ _ reads⟩

/-- What stands in parentheses, or in the arguments of a call, is converted as it is by itself, and to
the tokens around it the whole is a single operand. This holds of misplaced operands and operators as well. -/
theorem toPostfix_independent_of_context {before : List Token}
    (plain : ∀ token ∈ before.getLast?, token.isFunctionName = false) (after : List Token) :
    (∀ inner output, toPostfix inner = .ok output →
      ActsAsNumber before after ([.leftParen] ++ inner ++ [.rightParen]) output) ∧
    ∀ (f : Builtin) (parts outputs : List (List Token)), parts ≠ [] → parts ≠ [[]] →
      List.Forall₂ (fun part output => toPostfix part = .ok output) parts outputs →
      ActsAsNumber before after ([.name f.name, .leftParen] ++ List.intercalate [.separator] parts ++ [.rightParen])
        (outputs.flatten ++ [.call ⟨f, parts.length⟩]) := by
  refine ⟨fun inner output converted => ?_, fun f parts outputs some written converted => ?_⟩
  · exact actsAsNumber plain after (reads_group converted)
  · exact actsAsNumber plain after (reads_call converted some written f)

theorem toPostfix_misplaced_in_call :
    (∀ token ∈ ([.number 2, .operator .sub] : List Token).getLast?, token.isFunctionName = false) ∧
    toPostfix [.number 3, .number 4, .operator .mul] = .ok [.number 3, .number 4, .operator .mul] ∧
    ActsAsNumber [.number 2, .operator .sub] [.operator .pow, .number 5]
      [.leftParen, .number 3, .number 4, .operator .mul, .rightParen] [.number 3, .number 4, .operator .mul] ∧
    List.Forall₂ (fun part output => toPostfix part = .ok output)
      [[.number 3, .number 4, .operator .mul], []] [[.number 3, .number 4, .operator .mul], []] ∧
    ActsAsNumber [.number 2, .operator .sub] [.operator .pow, .number 5]
      [.name "pow", .leftParen, .number 3, .number 4, .operator .mul, .separator, .rightParen]
      [.number 3, .number 4, .operator .mul, .call ⟨.pow, 2⟩] := by
  have plain : ∀ token ∈ ([.number 2, .operator .sub] : List Token).getLast?, token.isFunctionName = false := by
    rintro token ⟨⟩
    rfl
  have inner : toPostfix [.number 3, .number 4, .operator .mul] = .ok [.number 3, .number 4, .operator .mul] := rfl
  have parts : List.Forall₂ (fun part output => toPostfix part = .ok output)
      [[.number 3, .number 4, .operator .mul], []] [[.number 3, .number 4, .operator .mul], []] :=
    .cons inner (.cons rfl .nil)
  have independent := toPostfix_independent_of_context plain [.operator .pow, .number 5]
  have group := independent.1 _ _ inner
  have call := independent.2 .pow _ _ (by simp) (by simp) parts
  rw [List.intercalate_cons_cons, List.intercalate_singleton] at call
  exact ⟨plain, inner, group, parts, call⟩

end Calculator
