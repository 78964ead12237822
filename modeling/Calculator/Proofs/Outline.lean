import Mathlib.Data.List.TakeWhile
import Calculator.Proofs.ConversionReads
import Calculator.Proofs.Outcome

namespace Calculator

/-- A conversion without the operators that wait in it: the open groups, the innermost first, each with
the function whose arguments it holds and the commas met directly inside. `function` is the one that the
token before has named. -/
structure Outline where
  groups : List (Option (Builtin × Nat)) := []
  function : Option Builtin := none
  expectsOperand : Bool := true
  justOpened : Bool := false

def Outline.readName (outline : Outline) (text : String) (next : Option Token) :
    Except SyntaxError (Outline × List Token) :=
  match Builtin.ofName? text with
  | some f =>
    if next = some .leftParen then .ok ({ outline with function := some f }, [])
    else .error (.expectedArguments text)
  | none =>
    match constant? text with
    | some value => .ok ({ outline with expectsOperand := false }, [.number value])
    | none => .error (.unknownIdentifier text)

/-- What a token settles: the postfix tokens that are certain to be put out once it has been read, in
whatever order. -/
def Outline.read (outline : Outline) (token : Token) (next : Option Token) :
    Except SyntaxError (Outline × List Token) :=
  match token with
  | .number _ | .call _ => .ok ({ outline with expectsOperand := false }, [token])
  | .name text => outline.readName text next
  | .negate => .ok (outline, [.negate])
  | .operator op =>
    if op = .sub ∧ outline.expectsOperand then .ok (outline, [.negate])
    else .ok ({ outline with expectsOperand := true }, [.operator op])
  | .leftParen =>
    .ok ({ outline with
      groups := outline.function.map (·, 0) :: outline.groups
      function := none
      expectsOperand := true }, [])
  | .rightParen =>
    match outline.groups with
    | [] => .error .unbalancedParentheses
    | none :: outer => .ok ({ outline with groups := outer, expectsOperand := false }, [])
    | some (f, commas) :: outer =>
      .ok ({ outline with groups := outer, expectsOperand := false },
        [.call ⟨f, if outline.justOpened then 0 else commas + 1⟩])
  | .separator =>
    match outline.groups with
    | some (f, commas) :: outer =>
      .ok ({ outline with groups := some (f, commas + 1) :: outer, expectsOperand := true }, [])
    | [] | none :: _ => .error .misplacedSeparator
  | .blank => .ok (outline, [])

def Outline.step (outline : Outline) (token : Token) (next : Option Token) :
    Except SyntaxError (Outline × List Token) := do
  let (outline, settled) ← outline.read token next
  return ({ outline with justOpened := token == .leftParen }, settled)

/-- What the tokens settle, from a state on. Every group has to be closed. -/
def Outline.run (outline : Outline) : List Token → Except SyntaxError (List Token)
  | [] => if outline.groups = [] then .ok [] else .error .unbalancedParentheses
  | token :: rest => do
    let (outline, settled) ← outline.step token rest.head?
    let later ← outline.run rest
    return settled ++ later

/-- A stack with its open groups. A function waits directly under the list of its arguments and
nowhere else. -/
inductive Nested : List Pending → List (Option (Builtin × Nat)) → Prop
  | nil : Nested [] []
  | operator {entry pending groups} : entry.isOperator = true → Nested pending groups →
      Nested (entry :: pending) groups
  | plain {pending groups} (commas) : Nested pending groups →
      Nested (.group false commas :: pending) (none :: groups)
  | call {pending groups} (f commas) : Nested pending groups →
      Nested (.group true commas :: .function f :: pending) (some (f, commas) :: groups)

theorem Nested.innermost {pending : List Pending} {groups : List (Option (Builtin × Nat))}
    (nested : Nested pending groups) :
    ∃ held below, pending = held ++ below ∧ (∀ entry ∈ held, entry.isOperator = true) ∧
      ((groups = [] ∧ below = []) ∨
        (∃ commas rest outer, groups = none :: outer ∧ below = .group false commas :: rest ∧
          Nested rest outer) ∨
        ∃ f commas rest outer, groups = some (f, commas) :: outer ∧
          below = .group true commas :: .function f :: rest ∧ Nested rest outer) := by
  induction nested with
  | nil => exact ⟨[], [], rfl, by simp, .inl ⟨rfl, rfl⟩⟩
  | @operator entry pending groups operator _ ih =>
    obtain ⟨held, below, rfl, operators, shape⟩ := ih
    refine ⟨entry :: held, below, rfl, ?_, shape⟩
    intro other member
    rcases List.mem_cons.mp member with rfl | inside
    · exact operator
    · exact operators other inside
  | plain commas inner _ => exact ⟨[], _, rfl, by simp, .inr (.inl ⟨commas, _, _, rfl, rfl, inner⟩)⟩
  | call f commas inner _ => exact ⟨[], _, rfl, by simp, .inr (.inr ⟨f, commas, _, _, rfl, rfl, inner⟩)⟩

/-- Operators that leave take no group with them. -/
theorem Nested.dropOperators {pending : List Pending} {groups : List (Option (Builtin × Nat))} (op : Operator)
    (nested : Nested pending groups) : Nested (pending.dropWhile (·.goesBefore op)) groups := by
  induction nested with
  | nil => exact .nil
  | @operator entry pending groups operator inner ih =>
    rw [List.dropWhile_cons]
    split
    · exact ih
    · exact .operator operator inner
  | plain commas inner _ => exact .plain commas inner
  | call f commas inner _ => exact .call f commas inner

/-- The operators that wait, as the postfix tokens that they will be. -/
def heldTokens (pending : List Pending) : List Token :=
  (pending.filter (·.isOperator)).flatMap Pending.flush

theorem heldTokens_append (pending more : List Pending) :
    heldTokens (pending ++ more) = heldTokens pending ++ heldTokens more := by
  simp only [heldTokens, List.filter_append, List.flatMap_append]

theorem heldTokens_operators {held : List Pending} (operators : ∀ entry ∈ held, entry.isOperator = true) :
    heldTokens held = held.flatMap Pending.flush := by
  rw [heldTokens, List.filter_eq_self.mpr operators]

/-- A conversion and its outline. Only right after the name of a function is there no list of arguments
above it yet. -/
inductive Conversion.Outlined : Conversion → Outline → Prop
  | between {pending groups} (expects opened) : Nested pending groups →
      Outlined ⟨pending, expects, opened, false⟩ ⟨groups, none, expects, opened⟩
  | named {pending groups} (f expects opened) : Nested pending groups →
      Outlined ⟨.function f :: pending, expects, opened, true⟩ ⟨groups, some f, expects, opened⟩

/-- What a token leads to agrees with the outline: what has been put out and what still waits are
together what was settled and what waited. -/
def Conversion.Follows (pending : List Pending) (next : Option Token) (result : Conversion × List Token)
    (later : Outline × List Token) : Prop :=
  result.1.Outlined later.1 ∧ (later.1.function.isSome = true → next = some .leftParen) ∧
    (result.2 ++ heldTokens result.1.pending).Perm (later.2 ++ heldTokens pending)

theorem pushBinary_held_perm (op : Operator) (pending : List Pending) :
    ((pushBinary op pending).2 ++ heldTokens (pushBinary op pending).1).Perm
      (.operator op :: heldTokens pending) := by
  have operators : ∀ entry ∈ pending.takeWhile (·.goesBefore op), entry.isOperator = true := fun entry member =>
    Pending.isOperator_of_goesBefore (List.mem_takeWhile_imp (p := fun entry : Pending => entry.goesBefore op) member)
  have waiting : heldTokens pending = (pending.takeWhile (·.goesBefore op)).flatMap Pending.flush ++
      heldTokens (pending.dropWhile (·.goesBefore op)) := by
    rw [← heldTokens_operators operators, ← heldTokens_append, List.takeWhile_append_dropWhile]
  rw [waiting]
  exact List.perm_middle

theorem Conversion.Outlined.readName {pending : List Pending} {groups : List (Option (Builtin × Nat))}
    (nested : Nested pending groups) (expects opened : Bool) (text : String) (next : Option Token) :
    Agree (Conversion.Follows pending next)
      (Conversion.readName ⟨pending, expects, opened, false⟩ text next)
      (Outline.readName ⟨groups, none, expects, opened⟩ text next) := by
  unfold Conversion.readName Outline.readName
  cases Builtin.ofName? text with
  | some f =>
    by_cases opens : next = some .leftParen
    · simp only [if_pos opens]
      exact .ok ⟨.named f expects opened nested, fun _ => opens, .refl _⟩
    · simp only [if_neg opens]
      exact .error _
  | none =>
    cases constant? text with
    | some value => exact .ok ⟨.between false opened nested, by simp, .refl _⟩
    | none => exact .error _

theorem Conversion.Outlined.readClose {pending : List Pending} {groups : List (Option (Builtin × Nat))}
    (nested : Nested pending groups) (expects opened : Bool) (next : Option Token) :
    Agree (Conversion.Follows pending next)
      (Conversion.read ⟨pending, expects, opened, false⟩ .rightParen next)
      (Outline.read ⟨groups, none, expects, opened⟩ .rightParen next) := by
  obtain ⟨held, below, rfl, operators, shape⟩ := nested.innermost
  rcases shape with ⟨rfl, rfl⟩ | ⟨commas, rest, outer, rfl, rfl, inner⟩ | ⟨f, commas, rest, outer, rfl, rfl, inner⟩
  · rw [List.append_nil, Conversion.read, close_outside operators]
    exact .error _
  · rw [Conversion.read, close_plain operators]
    refine .ok ⟨.between false opened inner, by simp, ?_⟩
    rw [heldTokens_append, heldTokens_operators operators]
    exact .refl _
  · rw [Conversion.read, close_call operators]
    refine .ok ⟨.between false opened inner, by simp, ?_⟩
    rw [heldTokens_append, heldTokens_operators operators, ← List.append_assoc]
    exact List.perm_append_comm.append_right _

theorem Conversion.Outlined.readComma {pending : List Pending} {groups : List (Option (Builtin × Nat))}
    (nested : Nested pending groups) (expects opened : Bool) (next : Option Token) :
    Agree (Conversion.Follows pending next)
      (Conversion.read ⟨pending, expects, opened, false⟩ .separator next)
      (Outline.read ⟨groups, none, expects, opened⟩ .separator next) := by
  obtain ⟨held, below, rfl, operators, shape⟩ := nested.innermost
  rcases shape with ⟨rfl, rfl⟩ | ⟨commas, rest, outer, rfl, rfl, inner⟩ | ⟨f, commas, rest, outer, rfl, rfl, inner⟩
  · rw [List.append_nil, Conversion.read, separate_outside operators]
    exact .error _
  · rw [Conversion.read, separate_plain operators]
    exact .error _
  · rw [Conversion.read, separate_call operators]
    refine .ok ⟨.between true opened (.call f (commas + 1) inner), by simp, ?_⟩
    rw [heldTokens_append, heldTokens_operators operators]
    exact .refl _

/-- What one token does. The name of a function has made sure of the parenthesis after it. -/
theorem Conversion.Outlined.read {state : Conversion} {outline : Outline} (outlined : state.Outlined outline)
    {token : Token} (named : outline.function.isSome = true → token = .leftParen) (next : Option Token) :
    Agree (Conversion.Follows state.pending next) (state.read token next) (outline.read token next) := by
  cases outlined with
  | @named pending groups f expects opened nested =>
    cases named rfl
    exact .ok ⟨.between true opened (.call f 0 nested), by simp, .refl _⟩
  | @between pending groups expects opened nested =>
    cases token with
    | number | call => exact .ok ⟨.between false opened nested, by simp, .refl _⟩
    | name text => exact Conversion.Outlined.readName nested expects opened text next
    | negate => exact .ok ⟨.between expects opened (.operator rfl nested), by simp, .refl _⟩
    | operator op =>
      simp only [Conversion.read, Outline.read]
      by_cases sign : op = .sub ∧ expects = true
      · simp only [if_pos sign]
        exact .ok ⟨.between expects opened (.operator rfl nested), by simp, .refl _⟩
      · simp only [if_neg sign]
        exact .ok ⟨.between true opened (.operator rfl (nested.dropOperators op)), by simp,
          pushBinary_held_perm op pending⟩
    | leftParen => exact .ok ⟨.between true opened (.plain 0 nested), by simp, .refl _⟩
    | rightParen => exact Conversion.Outlined.readClose nested expects opened next
    | separator => exact Conversion.Outlined.readComma nested expects opened next
    | blank => exact .ok ⟨.between expects opened nested, by simp, .refl _⟩

theorem Conversion.Outlined.opened {state : Conversion} {outline : Outline} (outlined : state.Outlined outline)
    (opened : Bool) :
    Conversion.Outlined { state with justOpened := opened } { outline with justOpened := opened } := by
  cases outlined with
  | named f expects _ nested => exact .named f expects opened nested
  | between expects _ nested => exact .between expects opened nested

theorem Conversion.Outlined.step {state : Conversion} {outline : Outline} (outlined : state.Outlined outline)
    {token : Token} (named : outline.function.isSome = true → token = .leftParen) (next : Option Token) :
    Agree (Conversion.Follows state.pending next) (state.step token next) (outline.step token next) := by
  refine (outlined.read named next).bind fun result later follows => ?_
  obtain ⟨inside, expected, settled⟩ := follows
  exact .ok ⟨inside.opened _, expected, settled⟩

/-- A run put out what its outline settles and what waited at its start, in another order. -/
theorem Conversion.Outlined.run {state : Conversion} {outline : Outline} (outlined : state.Outlined outline)
    {tokens : List Token} (named : outline.function.isSome = true → tokens.head? = some .leftParen) :
    Agree (fun output settled => output.Perm (settled ++ heldTokens state.pending))
      (state.run tokens) (outline.run tokens) := by
  induction tokens generalizing state outline with
  | nil =>
    cases outlined with
    | named => exact absurd (named rfl) (by simp)
    | @between pending groups expects opened nested =>
      obtain ⟨held, below, rfl, operators, shape⟩ := nested.innermost
      rw [Conversion.run, Outline.run]
      rcases shape with ⟨rfl, rfl⟩ | ⟨commas, rest, outer, rfl, rfl, _⟩ | ⟨f, commas, rest, outer, rfl, rfl, _⟩
      · rw [List.append_nil, finish_outside operators, heldTokens_operators operators]
        exact .ok (.refl _)
      · rw [finish_group]
        exact .error _
      · rw [finish_group]
        exact .error _
  | cons token rest ih =>
    have first : outline.function.isSome = true → token = .leftParen := fun some =>
      Option.some.inj (named some)
    rw [Conversion.run, Outline.run]
    refine (outlined.step first rest.head?).bind fun result later follows => ?_
    obtain ⟨inside, expected, settled⟩ := follows
    refine (ih inside expected).bind fun output after perm => .ok ?_
    calc
      List.Perm (result.2 ++ output) (result.2 ++ (after ++ heldTokens result.1.pending)) :=
        perm.append_left _
      List.Perm _ (after ++ (result.2 ++ heldTokens result.1.pending)) :=
        List.perm_append_comm_assoc result.2 after _
      List.Perm _ (after ++ (later.2 ++ heldTokens state.pending)) := settled.append_left _
      List.Perm _ (later.2 ++ after ++ heldTokens state.pending) := by
        rw [List.append_assoc]
        exact List.perm_append_comm_assoc after later.2 _

/-- The conversion of a token list ends as its outline does and puts out what that settles. -/
theorem toPostfix_outline (tokens : List Token) :
    Agree List.Perm (toPostfix tokens) (Outline.run {} tokens) := by
  have start : Conversion.Outlined {} {} := .between true false .nil
  refine (start.run (by simp)).mono fun output settled perm => ?_
  simpa only [heldTokens, List.filter_nil, List.flatMap_nil, List.append_nil] using perm

end Calculator
