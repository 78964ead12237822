import Mathlib.Data.List.Chain
import Calculator.Proofs.GroupContext

namespace Calculator

/-- The states of a conversion of `tokens`, each with the tokens that are still to be read. -/
inductive ConversionReach (tokens : List Token) : Conversion → List Token → Prop
  | start : ConversionReach tokens {} tokens
  | next {state after token rest output} : ConversionReach tokens state (token :: rest) →
      state.step token rest.head? = .ok (after, output) → ConversionReach tokens after rest

/-- An operator that waits above another one binds tighter. Only powers and signs wait above their like. -/
def Pending.Over (upper lower : Pending) : Prop :=
  ∃ tight loose, upper.precedence? = some tight ∧ lower.precedence? = some loose ∧
    (loose < tight ∨ upper = .binary .pow ∧ lower = .binary .pow ∨ upper = .negate ∧ lower = .negate)

/-- Neighbours on the stack are in order if both are operators. -/
def Climbs (pending : List Pending) : Prop :=
  pending.IsChain fun upper lower => upper.isOperator = true → lower.isOperator = true → upper.Over lower

theorem Climbs.push {entry : Pending} {pending : List Pending} (climbs : Climbs pending)
    (top : ∀ lower ∈ pending.head?, entry.isOperator = true → lower.isOperator = true → entry.Over lower) :
    Climbs (entry :: pending) :=
  List.isChain_cons.mpr ⟨top, climbs⟩

/-- Functions and groups may wait above everything. -/
theorem Climbs.pushOther {entry : Pending} {pending : List Pending} (climbs : Climbs pending)
    (other : entry.isOperator = false) : Climbs (entry :: pending) := by
  refine climbs.push fun lower _ operator => ?_
  rw [other] at operator
  cases operator

theorem Pending.negate_over {lower : Pending} (operator : lower.isOperator = true) : Pending.negate.Over lower := by
  cases lower with
  | binary op =>
    refine ⟨_, _, rfl, rfl, .inl ?_⟩
    cases op with
    | add | sub | mul | div | pow => decide
  | negate => exact ⟨_, _, rfl, rfl, .inr (.inr ⟨rfl, rfl⟩)⟩
  | function | group => cases operator

/-- What does not go before an operator lets it wait above. -/
theorem Pending.binary_over {op : Operator} {lower : Pending} (operator : lower.isOperator = true)
    (stays : lower.goesBefore op = false) : (Pending.binary op).Over lower := by
  cases lower with
  | binary other =>
    refine ⟨_, _, rfl, rfl, ?_⟩
    revert stays
    cases op with
    | add | sub | mul | div | pow =>
      cases other with
      | add | sub | mul | div | pow => decide
  | negate =>
    cases op with
    | add | sub | mul | div | pow => cases stays
  | function | group => cases operator

theorem Climbs.pushBinary {pending : List Pending} (climbs : Climbs pending) (op : Operator) :
    Climbs (pushBinary op pending).1 := by
  have below : Climbs (pending.dropWhile (·.goesBefore op)) := List.IsChain.suffix climbs (List.dropWhile_suffix _)
  have stays := List.head?_dropWhile_not (fun entry : Pending => entry.goesBefore op) pending
  refine below.push fun lower top _ operator => Pending.binary_over operator ?_
  rw [Option.mem_def.mp top] at stays
  simpa using stays

theorem Climbs.ofAppend {above below : List Pending} (climbs : Climbs (above ++ below)) : Climbs below :=
  List.IsChain.suffix climbs (List.suffix_append above below)

theorem Climbs.close {pending after : List Pending} {groups : List (Option (Builtin × Nat))} {empty : Bool}
    {output : List Token} (climbs : Climbs pending) (nested : Nested pending groups)
    (closed : Calculator.close empty pending = .ok (after, output)) : Climbs after := by
  obtain ⟨held, below, rfl, operators, shape⟩ := nested.innermost
  rcases shape with ⟨rfl, rfl⟩ | ⟨commas, rest, outer, rfl, rfl, _⟩ | ⟨f, commas, rest, outer, rfl, rfl, _⟩
  · rw [List.append_nil, close_outside operators] at closed
    cases closed
  · rw [close_plain operators] at closed
    cases closed
    exact List.IsChain.tail climbs.ofAppend
  · rw [close_call operators] at closed
    cases closed
    exact List.IsChain.tail (List.IsChain.tail climbs.ofAppend)

theorem Climbs.separate {pending after : List Pending} {groups : List (Option (Builtin × Nat))} {output : List Token}
    (climbs : Climbs pending) (nested : Nested pending groups)
    (separated : Calculator.separate pending = .ok (after, output)) : Climbs after := by
  obtain ⟨held, below, rfl, operators, shape⟩ := nested.innermost
  rcases shape with ⟨rfl, rfl⟩ | ⟨commas, rest, outer, rfl, rfl, _⟩ | ⟨f, commas, rest, outer, rfl, rfl, _⟩
  · rw [List.append_nil, separate_outside operators] at separated
    cases separated
  · rw [separate_plain operators] at separated
    cases separated
  · rw [separate_call operators] at separated
    cases separated
    exact Climbs.pushOther (List.IsChain.tail climbs.ofAppend) rfl

/-- The stack stays in order: entries leave from the top, and what waits above them binds tighter. -/
theorem Conversion.Outlined.read_climbs {state after : Conversion} {outline : Outline}
    (outlined : state.Outlined outline) {token : Token} {next : Option Token} {output : List Token}
    (named : outline.function.isSome = true → token = .leftParen) (climbs : Climbs state.pending)
    (read : state.read token next = .ok (after, output)) : Climbs after.pending := by
  cases outlined with
  | named f expects opened nested =>
    cases named rfl
    cases read
    exact climbs.pushOther rfl
  | @between pending groups expects opened nested =>
    cases token with
    | number | call | blank =>
      cases read
      exact climbs
    | leftParen =>
      cases read
      exact climbs.pushOther rfl
    | negate =>
      cases read
      exact climbs.push fun lower _ _ operator => Pending.negate_over operator
    | name text =>
      simp only [Conversion.read, Conversion.readName] at read
      split at read
      · split at read
        · cases read
          exact climbs.pushOther rfl
        · cases read
      · split at read
        · cases read
          exact climbs
        · cases read
    | operator op =>
      simp only [Conversion.read] at read
      split at read
      · cases read
        exact climbs.push fun lower _ _ operator => Pending.negate_over operator
      · cases read
        exact climbs.pushBinary op
    | rightParen =>
      obtain ⟨result, closed, same⟩ := bind_eq_ok.mp read
      cases same
      exact climbs.close nested closed
    | separator =>
      obtain ⟨result, separated, same⟩ := bind_eq_ok.mp read
      cases same
      exact climbs.separate nested separated

/-! ### Functions and their groups -/

theorem Nested.function_below_group {pending : List Pending} {groups : List (Option (Builtin × Nat))}
    (nested : Nested pending groups) {above below : List Pending} {f : Builtin}
    (place : pending = above ++ .function f :: below) : ∃ inner commas, above = inner ++ [.group true commas] := by
  induction nested generalizing above with
  | nil => simp at place
  | operator operator _ ih =>
    cases above with
    | nil =>
      cases place
      cases operator
    | cons entry above =>
      obtain ⟨inner, commas, rfl⟩ := ih (List.cons.inj place).2
      exact ⟨entry :: inner, commas, rfl⟩
  | plain count _ ih =>
    cases above with
    | nil => cases place
    | cons entry above =>
      obtain ⟨inner, commas, rfl⟩ := ih (List.cons.inj place).2
      exact ⟨entry :: inner, commas, rfl⟩
  | call g count _ ih =>
    cases above with
    | nil => cases place
    | cons entry above =>
      obtain ⟨rfl, placed⟩ := List.cons.inj place
      cases above with
      | nil => exact ⟨[], count, rfl⟩
      | cons waiting above =>
        obtain ⟨inner, commas, rfl⟩ := ih (List.cons.inj placed).2
        exact ⟨_ :: waiting :: inner, commas, rfl⟩

theorem Nested.group_above_function {pending : List Pending} {groups : List (Option (Builtin × Nat))}
    (nested : Nested pending groups) {above below : List Pending} {commas : Nat}
    (place : pending = above ++ .group true commas :: below) : ∃ f under, below = .function f :: under := by
  induction nested generalizing above with
  | nil => simp at place
  | operator operator _ ih =>
    cases above with
    | nil =>
      cases place
      cases operator
    | cons entry above => exact ih (List.cons.inj place).2
  | plain count _ ih =>
    cases above with
    | nil => cases place
    | cons entry above => exact ih (List.cons.inj place).2
  | call g count _ ih =>
    cases above with
    | nil =>
      cases place
      exact ⟨g, _, rfl⟩
    | cons entry above =>
      obtain ⟨_, placed⟩ := List.cons.inj place
      cases above with
      | nil => cases placed
      | cons waiting above => exact ih (List.cons.inj placed).2

/-! ### Every state that is reached -/

theorem ConversionReach.outlined {tokens rest : List Token} {state : Conversion}
    (reach : ConversionReach tokens state rest) :
    ∃ outline : Outline, state.Outlined outline ∧
      (outline.function.isSome = true → rest.head? = some .leftParen) := by
  induction reach with
  | start => exact ⟨{}, .between true false .nil, by simp⟩
  | next _ stepped ih =>
    obtain ⟨outline, outlined, named⟩ := ih
    exact outlined.next (fun some => Option.some.inj (named some)) stepped

theorem ConversionReach.climbs {tokens rest : List Token} {state : Conversion}
    (reach : ConversionReach tokens state rest) : Climbs state.pending := by
  induction reach with
  | start => exact List.isChain_nil
  | next previous stepped ih =>
    obtain ⟨outline, outlined, named⟩ := previous.outlined
    obtain ⟨⟨after, output⟩, read, same⟩ := bind_eq_ok.mp stepped
    have climbs : Climbs after.pending :=
      outlined.read_climbs (fun some => Option.some.inj (named some)) ih read
    cases same
    exact climbs

/-- A function waits directly below its group. Only right after its name it is on top, and the parenthesis
that opens the group comes next. -/
theorem ConversionReach.function {tokens rest : List Token} {state : Conversion}
    (reach : ConversionReach tokens state rest) {above below : List Pending} {f : Builtin}
    (place : state.pending = above ++ .function f :: below) :
    (∃ inner commas, above = inner ++ [.group true commas]) ∨
      above = [] ∧ state.opensCall = true ∧ rest.head? = some .leftParen := by
  obtain ⟨outline, outlined, named⟩ := reach.outlined
  cases outlined with
  | between _ _ nested => exact .inl (nested.function_below_group place)
  | named g _ _ nested =>
    cases above with
    | nil => exact .inr ⟨rfl, rfl, named rfl⟩
    | cons entry above =>
      obtain ⟨inner, commas, rfl⟩ := nested.function_below_group (List.cons.inj place).2
      exact .inl ⟨entry :: inner, commas, rfl⟩

theorem ConversionReach.call {tokens rest : List Token} {state : Conversion}
    (reach : ConversionReach tokens state rest) {above below : List Pending} {commas : Nat}
    (place : state.pending = above ++ .group true commas :: below) : ∃ f under, below = .function f :: under := by
  obtain ⟨outline, outlined, _⟩ := reach.outlined
  cases outlined with
  | between _ _ nested => exact nested.group_above_function place
  | named g _ _ nested =>
    cases above with
    | nil => cases place
    | cons entry above => exact nested.group_above_function (List.cons.inj place).2

/-- Between groups all but the top entry are operators: a function has its group above it. -/
theorem ConversionReach.operators {tokens rest : List Token} {state : Conversion}
    (reach : ConversionReach tokens state rest) {above more below : List Pending} {top : Pending}
    (place : state.pending = above ++ (top :: more) ++ below)
    (inside : ∀ entry ∈ top :: more, entry.isGroup = false) : ∀ entry ∈ more, entry.isOperator = true := by
  intro entry member
  cases entry with
  | binary | negate => rfl
  | group => cases inside _ (List.mem_cons_of_mem _ member)
  | function f =>
    obtain ⟨first, last, rfl⟩ := List.append_of_mem member
    have split : state.pending = above ++ top :: first ++ .function f :: (last ++ below) := by
      rw [place]
      simp only [List.append_assoc, List.cons_append]
    rcases reach.function split with ⟨inner, commas, group⟩ | ⟨top, _⟩
    · have last : Pending.group true commas ∈ top :: first := by
        have ending := congrArg List.getLast? group
        rw [List.getLast?_append_cons, List.getLast?_concat] at ending
        exact List.mem_of_getLast? ending
      have grouped := inside (.group true commas) (by
        rcases List.mem_cons.mp last with here | later
        · exact here ▸ List.mem_cons_self ..
        · exact List.mem_cons_of_mem _ (List.mem_append_left _ later))
      cases grouped
    · simp at top

/-- The operators between two groups bind tighter and tighter towards the top. -/
theorem ConversionReach.between {tokens rest : List Token} {state : Conversion}
    (reach : ConversionReach tokens state rest) {above inside below : List Pending}
    (place : state.pending = above ++ inside ++ below) (ungrouped : ∀ entry ∈ inside, entry.isGroup = false) :
    (inside.filter (·.isOperator)).IsChain Pending.Over := by
  have climbs : Climbs inside := by
    have all := reach.climbs
    rw [place] at all
    exact List.IsChain.infix all (List.infix_append above inside below)
  have chain : ∀ entries : List Pending, Climbs entries → (∀ entry ∈ entries, entry.isOperator = true) →
      entries.IsChain Pending.Over := by
    intro entries climbs operators
    exact List.IsChain.imp_of_mem_imp
      (fun upper lower up low ordered => ordered (operators upper up) (operators lower low)) climbs
  cases inside with
  | nil => exact List.isChain_nil
  | cons top more =>
    have operators := reach.operators place ungrouped
    cases kind : top.isOperator with
    | true =>
      have all : ∀ entry ∈ top :: more, entry.isOperator = true := by
        intro entry member
        rcases List.mem_cons.mp member with rfl | member
        · exact kind
        · exact operators entry member
      rw [List.filter_eq_self.mpr all]
      exact chain _ climbs all
    | false =>
      rw [List.filter_cons_of_neg (by simp [kind]), List.filter_eq_self.mpr operators]
      exact chain _ (List.IsChain.tail climbs) operators

/-! ### What leaves the stack -/

/-- The entries that leave the stack one by one, each as what it becomes, when a token is read or the tokens
have ended. The list of arguments that a parenthesis closes and the function below it leave together. -/
def Conversion.flushed (state : Conversion) : Option Token → List Pending
  | some (.operator op) =>
    if op = .sub ∧ state.expectsOperand then [] else state.pending.takeWhile (·.goesBefore op)
  | some .separator | some .rightParen => state.pending.takeWhile (!·.isGroup)
  | none => state.pending.takeWhile (·.isOperator)
  | some (.number _) | some (.name _) | some .negate | some .leftParen | some (.call _) | some .blank => []

/-- A token puts out what leaves the stack, then at most one token of its own. -/
theorem Conversion.read_flushed {state after : Conversion} {token : Token} {next : Option Token}
    {output : List Token} (read : state.read token next = .ok (after, output)) :
    ∃ own : Option Token, output = (state.flushed (some token)).flatMap Pending.flush ++ own.toList := by
  cases token with
  | number | call =>
    cases read
    exact ⟨some _, rfl⟩
  | negate | leftParen | blank =>
    cases read
    exact ⟨none, rfl⟩
  | name text =>
    simp only [Conversion.read, Conversion.readName] at read
    split at read
    · split at read
      · cases read
        exact ⟨none, rfl⟩
      · cases read
    · split at read
      · cases read
        exact ⟨some _, rfl⟩
      · cases read
  | operator op =>
    simp only [Conversion.read] at read
    split at read
    · next sign =>
      cases read
      exact ⟨none, by simp only [Conversion.flushed, if_pos sign]; rfl⟩
    · next binary =>
      cases read
      exact ⟨none, by simp only [Conversion.flushed, if_neg binary]; exact (List.append_nil _).symm⟩
  | separator =>
    obtain ⟨result, separated, same⟩ := bind_eq_ok.mp read
    cases same
    simp only [separate] at separated
    split at separated
    · cases separated
      exact ⟨none, (List.append_nil _).symm⟩
    · cases separated
  | rightParen =>
    obtain ⟨result, closed, same⟩ := bind_eq_ok.mp read
    cases same
    simp only [close] at closed
    split at closed
    · next separators below _ =>
      cases closed
      unfold endCall
      split
      · exact ⟨some _, rfl⟩
      · exact ⟨none, rfl⟩
    · cases closed
      exact ⟨none, (List.append_nil _).symm⟩
    · cases closed

theorem Conversion.finish_flushed {state : Conversion} {output : List Token}
    (finished : finish state.pending = .ok output) : output = (state.flushed none).flatMap Pending.flush := by
  rw [finish] at finished
  split at finished
  · next all =>
    cases finished
    have operators : ∀ entry ∈ state.pending, entry.isOperator = true := List.all_eq_true.mp all
    rw [Conversion.flushed, List.takeWhile_eq_self_iff.mpr operators]
  · cases finished

/-- Right after the name of a function only its parenthesis can come. In all other states operators lie above
the innermost group, and nothing else does. -/
theorem ConversionReach.innermost {tokens rest : List Token} {state : Conversion}
    (reach : ConversionReach tokens state rest) (other : rest.head? ≠ some .leftParen) :
    ∃ held below, state.pending = held ++ below ∧ (∀ entry ∈ held, entry.isOperator = true) ∧
      ∀ entry ∈ below.head?, entry.isGroup = true := by
  obtain ⟨outline, outlined, named⟩ := reach.outlined
  cases outlined with
  | named => exact absurd (named rfl) other
  | between _ _ nested =>
    obtain ⟨held, below, place, operators, shape⟩ := nested.innermost
    refine ⟨held, below, place, operators, ?_⟩
    rcases shape with ⟨_, rfl⟩ | ⟨_, _, _, _, rfl, _⟩ | ⟨_, _, _, _, _, rfl, _⟩
    · simp
    · simp [Pending.isGroup]
    · simp [Pending.isGroup]

theorem ConversionReach.flushed {tokens rest : List Token} {state : Conversion}
    (reach : ConversionReach tokens state rest) :
    ∀ entry ∈ state.flushed rest.head?, entry.isOperator = true := by
  have inside : rest.head? ≠ some .leftParen →
      ∀ entry ∈ state.pending.takeWhile (!·.isGroup), entry.isOperator = true := by
    intro other
    obtain ⟨held, below, place, operators, outer⟩ := reach.innermost other
    rw [place, takeWhile_held operators outer]
    exact operators
  intro entry member
  cases rest with
  | nil => exact List.mem_takeWhile_imp (p := fun entry : Pending => entry.isOperator) member
  | cons token rest =>
    cases token with
    | separator => exact inside (by simp) entry member
    | rightParen => exact inside (by simp) entry member
    | operator op =>
      simp only [List.head?_cons, Conversion.flushed] at member
      split at member
      · cases member
      · exact Pending.isOperator_of_goesBefore
          (List.mem_takeWhile_imp (p := fun entry : Pending => entry.goesBefore op) member)
    | number | name | negate | leftParen | call | blank => cases member

/-- How the stack of a conversion looks before `rest` is read, and what can leave it then. -/
structure Conversion.StackLaw (state : Conversion) (rest : List Token) : Prop where
  /-- Directly above a function is its group, or nothing yet while its parenthesis comes next. -/
  function : ∀ above f below, state.pending = above ++ .function f :: below →
    (∃ inner commas, above = inner ++ [.group true commas]) ∨
      above = [] ∧ state.opensCall = true ∧ rest.head? = some .leftParen
  /-- Directly below the group of a call is its function. -/
  call : ∀ above commas below, state.pending = above ++ .group true commas :: below →
    ∃ f under, below = .function f :: under
  /-- Operators without a group between them bind tighter towards the top. -/
  between : ∀ above inside below, state.pending = above ++ inside ++ below →
    (∀ entry ∈ inside, entry.isGroup = false) → (inside.filter (·.isOperator)).IsChain Pending.Over
  /-- Only operators leave the stack one by one. -/
  flushed : ∀ entry ∈ state.flushed rest.head?, entry.isOperator = true
  /-- The end of the tokens meets no function before a group. -/
  ended : rest = [] → ∀ f below, state.pending.dropWhile (·.isOperator) ≠ .function f :: below
  /-- A parenthesis that closes a list of arguments finds the function. -/
  closed : rest.head? = some .rightParen → ∀ commas below,
    state.pending.dropWhile (!·.isGroup) = .group true commas :: below → ∃ f under, below = .function f :: under

/-- The law of the stack holds in every state of every conversion. What leaves the stack one by one is all that
a token or the end puts out, but for a token of its own. -/
theorem conversion_stackLaw {tokens rest : List Token} {state : Conversion}
    (reach : ConversionReach tokens state rest) :
    state.StackLaw rest ∧
      (∀ token more after output, rest = token :: more → state.step token more.head? = .ok (after, output) →
        ∃ own : Option Token, output = (state.flushed rest.head?).flatMap Pending.flush ++ own.toList) ∧
      (∀ output, rest = [] → finish state.pending = .ok output →
        output = (state.flushed rest.head?).flatMap Pending.flush) := by
  refine ⟨⟨fun above f below => reach.function, fun above commas below => reach.call,
    fun above inside below => reach.between, reach.flushed, ?_, ?_⟩, ?_, ?_⟩
  · rintro rfl f below met
    obtain ⟨held, under, place, operators, outer⟩ := reach.innermost (by simp)
    rw [place, List.dropWhile_append_of_pos operators] at met
    cases under with
    | nil => cases met
    | cons entry under =>
      have group : entry.isGroup = true := outer entry rfl
      cases entry with
      | group => cases met
      | binary | negate | function => cases group
  · intro _ commas below found
    have whole := List.takeWhile_append_dropWhile (p := fun entry : Pending => !entry.isGroup) (l := state.pending)
    rw [found] at whole
    exact reach.call whole.symm
  · rintro token more after output rfl stepped
    obtain ⟨⟨later, output⟩, read, same⟩ := bind_eq_ok.mp stepped
    cases same
    exact Conversion.read_flushed read
  · rintro output rfl finished
    exact Conversion.finish_flushed finished

/-- Inside `2 ^ -sin(3 ^ 4 ^ --5)`, before its last number: powers wait above powers, signs above signs. -/
theorem conversion_stackLaw_nested_powers :
    ConversionReach
        [.number 2, .operator .pow, .operator .sub, .name "sin", .leftParen, .number 3, .operator .pow, .number 4,
          .operator .pow, .operator .sub, .negate, .number 5, .rightParen]
        { pending := [.negate, .negate, .binary .pow, .binary .pow, .group true 0, .function .sin, .negate,
            .binary .pow] }
        [.number 5, .rightParen] ∧
      Conversion.StackLaw
        { pending := [.negate, .negate, .binary .pow, .binary .pow, .group true 0, .function .sin, .negate,
            .binary .pow] }
        [.number 5, .rightParen] := by
  have reach : ConversionReach
      [.number 2, .operator .pow, .operator .sub, .name "sin", .leftParen, .number 3, .operator .pow, .number 4,
        .operator .pow, .operator .sub, .negate, .number 5, .rightParen]
      { pending := [.negate, .negate, .binary .pow, .binary .pow, .group true 0, .function .sin, .negate,
          .binary .pow] }
      [.number 5, .rightParen] := by
    exact (((((((((((ConversionReach.start.next rfl).next rfl).next rfl).next rfl).next rfl).next rfl).next rfl).next
      rfl).next rfl).next rfl).next rfl)
  exact ⟨reach, (conversion_stackLaw reach).1⟩

end Calculator
