import Calculator.Proofs.OutlineMoves
import Calculator.Proofs.StackDepth

namespace Calculator

/-- The number that a token is. -/
def Token.number? : Token → Option Float
  | .number value => some value
  | .name _ | .operator _ | .negate | .leftParen | .rightParen | .separator | .call _ | .blank => none

/-- The number that a token of an expression stands for, as a constant does. -/
def Token.operand? : Token → Option Float
  | .number value => some value
  | .name text => constant? text
  | .operator _ | .negate | .leftParen | .rightParen | .separator | .call _ | .blank => none

/-- The call that a token is. -/
def Token.call? : Token → Option Call
  | .call written => some written
  | .number _ | .name _ | .operator _ | .negate | .leftParen | .rightParen | .separator | .blank => none

/-- Whether a minus after `before`, the nearest token first, is a sign. Blanks and signs that are marked
as such do not count. -/
def signPlace : List Token → Bool
  | [] => true
  | .blank :: before => signPlace before
  | .negate :: before => signPlace before
  | .operator _ :: _ => true
  | .leftParen :: _ => true
  | .separator :: _ => true
  | .number _ :: _ => false
  | .name _ :: _ => false
  | .rightParen :: _ => false
  | .call _ :: _ => false

/-- How often a minus is a sign in tokens that follow `before`. -/
def minusSigns (before : List Token) : List Token → Nat
  | [] => 0
  | token :: rest =>
    (if token = .operator .sub ∧ signPlace before then 1 else 0) + minusSigns (token :: before) rest

/-- How often `op` stands between two operands in tokens that follow `before`. -/
def binaryUses (op : Operator) (before : List Token) : List Token → Nat
  | [] => 0
  | token :: rest =>
    (if token = .operator op ∧ ¬(op = .sub ∧ signPlace before) then 1 else 0) +
      binaryUses op (token :: before) rest

/-- The commas directly inside a group that has been opened, up to its end. `depth` counts the groups
that have been opened inside it since. -/
def commasInside (depth : Nat) : List Token → Nat
  | [] => 0
  | .leftParen :: rest => commasInside (depth + 1) rest
  | .rightParen :: rest =>
    match depth with
    | 0 => 0
    | depth + 1 => commasInside depth rest
  | .separator :: rest => (if depth = 0 then 1 else 0) + commasInside depth rest
  | _ :: rest => commasInside depth rest

/-- How many arguments are written after the name of a function. -/
def writtenArguments : List Token → Nat
  | .leftParen :: rest => if rest.head? = some .rightParen then 0 else commasInside 0 rest + 1
  | _ => 0

/-- The call that a token is or, as the name of a function, begins. -/
def Token.writtenCall? (rest : List Token) : Token → Option Call
  | .call written => some written
  | .name text => (Builtin.ofName? text).map (⟨·, writtenArguments rest⟩)
  | .number _ | .operator _ | .negate | .leftParen | .rightParen | .separator | .blank => none

/-- The calls of an expression. -/
def writtenCalls : List Token → List Call
  | [] => []
  | token :: rest => (token.writtenCall? rest).toList ++ writtenCalls rest

/-- What a token contributes to the postfix order, wherever it goes. -/
def Token.content (before rest : List Token) : Token → List Token
  | .number value => [.number value]
  | .name text =>
    match Builtin.ofName? text with
    | some f => [.call ⟨f, writtenArguments rest⟩]
    | none => ((constant? text).map .number).toList
  | .operator op => if op = .sub ∧ signPlace before then [.negate] else [.operator op]
  | .negate => [.negate]
  | .call written => [.call written]
  | .leftParen | .rightParen | .separator | .blank => []

def contents (before : List Token) : List Token → List Token
  | [] => []
  | token :: rest => token.content before rest ++ contents (token :: before) rest

section Contents

variable (before rest : List Token) (token : Token)

theorem content_operators (op : Operator) :
    (token.content before rest).count (.operator op) =
      if token = .operator op ∧ ¬(op = .sub ∧ signPlace before) then 1 else 0 := by
  cases token with
  | name text =>
    rw [Token.content]
    cases Builtin.ofName? text with
    | some f => rfl
    | none =>
      cases constant? text with
      | some | none => rfl
  | operator other =>
    rw [Token.content]
    by_cases sign : other = .sub ∧ signPlace before = true
    · rw [if_pos sign]
      by_cases same : other = op
      · cases same
        simp [sign]
      · simp [same]
    · rw [if_neg sign]
      by_cases same : other = op
      · cases same
        simp [sign]
      · simp [same]
  | number | negate | leftParen | rightParen | separator | call | blank => rfl

theorem content_signs :
    (token.content before rest).count .negate =
      [token].count .negate + if token = .operator .sub ∧ signPlace before then 1 else 0 := by
  cases token with
  | name text =>
    rw [Token.content]
    cases Builtin.ofName? text with
    | some f => rfl
    | none =>
      cases constant? text with
      | some | none => rfl
  | operator op =>
    rw [Token.content]
    by_cases sign : op = .sub ∧ signPlace before = true
    · simp [sign]
    · simp [sign]
  | number | negate | leftParen | rightParen | separator | call | blank => rfl

theorem content_calls :
    (token.content before rest).filterMap Token.call? = (token.writtenCall? rest).toList := by
  cases token with
  | name text =>
    rw [Token.content, Token.writtenCall?]
    cases Builtin.ofName? text with
    | some f => rfl
    | none =>
      cases constant? text with
      | some | none => rfl
  | operator op =>
    rw [Token.content]
    split
    · rfl
    · rfl
  | number | negate | leftParen | rightParen | separator | call | blank => rfl

theorem content_isPostfix : ∀ part ∈ token.content before rest, part.isPostfix = true := by
  cases token with
  | name text =>
    rw [Token.content]
    cases Builtin.ofName? text with
    | some f => simp [Token.isPostfix]
    | none =>
      cases constant? text with
      | some | none => simp [Token.isPostfix]
  | operator op =>
    rw [Token.content]
    split
    · simp [Token.isPostfix]
    · simp [Token.isPostfix]
  | number | negate | leftParen | rightParen | separator | call | blank => simp [Token.content, Token.isPostfix]

end Contents

theorem contents_operators (op : Operator) (before tokens : List Token) :
    (contents before tokens).count (.operator op) = binaryUses op before tokens := by
  induction tokens generalizing before with
  | nil => rfl
  | cons token rest ih => rw [contents, List.count_append, content_operators, ih, binaryUses]

theorem contents_signs (before tokens : List Token) :
    (contents before tokens).count .negate = tokens.count .negate + minusSigns before tokens := by
  induction tokens generalizing before with
  | nil => rfl
  | cons token rest ih =>
    have split : (token :: rest).count .negate = [token].count .negate + rest.count .negate := by
      rw [← List.singleton_append, List.count_append]
    rw [contents, List.count_append, content_signs, ih, minusSigns, split]
    omega

theorem contents_calls (before tokens : List Token) :
    (contents before tokens).filterMap Token.call? = writtenCalls tokens := by
  induction tokens generalizing before with
  | nil => rfl
  | cons token rest ih => rw [contents, List.filterMap_append, content_calls, ih, writtenCalls]

theorem contents_isPostfix (before tokens : List Token) : ∀ part ∈ contents before tokens, part.isPostfix = true := by
  induction tokens generalizing before with
  | nil => simp [contents]
  | cons token rest ih =>
    intro part member
    rcases List.mem_append.mp member with here | later
    · exact content_isPostfix before rest token part here
    · exact ih (token :: before) part later

/-- The calls whose argument lists are open, with the arguments that they will have once `tokens` have
been read. `empty` tells that the innermost list ends as soon as it has begun. -/
def openCalls (empty : Bool) (depth : Nat) : List (Option (Builtin × Nat)) → List Token → List Call
  | [], _ => []
  | none :: outer, tokens => openCalls false (depth + 1) outer tokens
  | some (f, commas) :: outer, tokens =>
    ⟨f, if empty then 0 else commas + commasInside depth tokens + 1⟩ ::
      openCalls false (depth + 1) outer tokens

theorem openCalls_congr {depth other : Nat} {tokens more : List Token}
    (same : ∀ further, commasInside (depth + further) tokens = commasInside (other + further) more)
    (groups : List (Option (Builtin × Nat))) :
    openCalls false depth groups tokens = openCalls false other groups more := by
  induction groups generalizing depth other with
  | nil => rfl
  | cons group outer ih =>
    have deeper : ∀ further,
        commasInside (depth + 1 + further) tokens = commasInside (other + 1 + further) more := by
      intro further
      have next := same (1 + further)
      rwa [← Nat.add_assoc, ← Nat.add_assoc] at next
    cases group with
    | none => exact ih deeper
    | some call =>
      have here : commasInside depth tokens = commasInside other more := same 0
      simp only [openCalls, here, ih deeper]

/-- The calls that have been named and not been settled yet. -/
def Outline.unfinished (outline : Outline) (tokens : List Token) : List Call :=
  (outline.function.map (⟨·, writtenArguments tokens⟩)).toList ++
    openCalls (outline.justOpened && tokens.head? == some .rightParen) 0 outline.groups tokens

/-- What an outline knows of the tokens before it. -/
def Outline.Knows (outline : Outline) (before tokens : List Token) : Prop :=
  (outline.function.isSome = true → tokens.head? = some .leftParen) ∧
    (outline.function = none → outline.expectsOperand = signPlace before)

section Step

variable (groups : List (Option (Builtin × Nat))) (expects opened : Bool) (before rest : List Token)

/-- A token that neither opens nor closes a group nor separates arguments leaves the open calls as they
are. -/
theorem unfinished_within (token : Token) (later : Bool) (inside : token ≠ .rightParen)
    (within : ∀ depth, commasInside depth (token :: rest) = commasInside depth rest) :
    Outline.unfinished ⟨groups, none, later, false⟩ rest =
      Outline.unfinished ⟨groups, none, expects, opened⟩ (token :: rest) := by
  have other : (some token == some Token.rightParen) = false := by simpa using inside
  have same : openCalls false 0 groups rest = openCalls false 0 groups (token :: rest) :=
    openCalls_congr (fun further => (within _).symm) groups
  simp only [Outline.unfinished, List.head?_cons, other, Bool.and_false, Bool.false_and]
  rw [same]
  rfl

theorem openCalls_leftParen :
    openCalls false 0 groups (.leftParen :: rest) = openCalls false 1 groups rest := by
  refine openCalls_congr (fun further => ?_) groups
  exact congrArg (commasInside · rest) (Nat.add_right_comm 0 further 1)

theorem openCalls_rightParen :
    openCalls false 1 groups (.rightParen :: rest) = openCalls false 0 groups rest := by
  refine openCalls_congr (fun further => ?_) groups
  rw [Nat.add_comm 1, Nat.zero_add]
  rfl

theorem openCalls_separator :
    openCalls false 1 groups (.separator :: rest) = openCalls false 1 groups rest := by
  refine openCalls_congr (fun further => ?_) groups
  rw [commasInside, if_neg (by omega), Nat.zero_add]

theorem unfinished_leftParen (function : Option Builtin) :
    Outline.unfinished ⟨function.map (·, 0) :: groups, none, true, true⟩ rest =
      Outline.unfinished ⟨groups, function, expects, opened⟩ (.leftParen :: rest) := by
  have other : (some Token.leftParen == some Token.rightParen) = false := rfl
  simp only [Outline.unfinished, List.head?_cons, other, Bool.and_false, openCalls_leftParen]
  cases function with
  | none => rfl
  | some f => simp [openCalls, writtenArguments]

theorem unfinished_closeGroup :
    Outline.unfinished ⟨groups, none, false, false⟩ rest =
      Outline.unfinished ⟨none :: groups, none, expects, opened⟩ (.rightParen :: rest) := by
  have same := openCalls_rightParen groups rest
  simp only [Outline.unfinished, Bool.false_and, openCalls, Nat.zero_add]
  rw [same]
  rfl

theorem unfinished_closeCall (f : Builtin) (commas : Nat) :
    ⟨f, if opened then 0 else commas + 1⟩ :: Outline.unfinished ⟨groups, none, false, false⟩ rest =
      Outline.unfinished ⟨some (f, commas) :: groups, none, expects, opened⟩ (.rightParen :: rest) := by
  have same := openCalls_rightParen groups rest
  have ends : (some Token.rightParen == some Token.rightParen) = true := by decide
  simp only [Outline.unfinished, List.head?_cons, ends, Bool.and_true, Bool.false_and, openCalls, Nat.zero_add,
    commasInside, Nat.add_zero, Option.map_none, Option.toList_none, List.nil_append]
  rw [same]

theorem unfinished_comma (f : Builtin) (commas : Nat) :
    Outline.unfinished ⟨some (f, commas + 1) :: groups, none, true, false⟩ rest =
      Outline.unfinished ⟨some (f, commas) :: groups, none, expects, opened⟩ (.separator :: rest) := by
  have same := openCalls_separator groups rest
  have other : (some Token.separator == some Token.rightParen) = false := rfl
  have counted : commas + 1 + commasInside 0 rest = commas + (1 + commasInside 0 rest) := by omega
  simp only [Outline.unfinished, List.head?_cons, other, Bool.and_false, Bool.false_and, openCalls, Nat.zero_add,
    commasInside, if_true, counted, Bool.false_eq_true, if_false]
  rw [same]
  rfl

end Step

/-- A token settles what it contributes, and what it leaves unfinished it settles with the end of the
call. -/
def Outline.Settles (before rest : List Token) (outline : Outline) (token : Token) (result : Outline × List Token) :
    Prop :=
  result.1.Knows (token :: before) rest ∧
    result.2 ++ (result.1.unfinished rest).map .call =
      token.content before rest ++ (outline.unfinished (token :: rest)).map .call

section Settles

variable {groups : List (Option (Builtin × Nat))} {expects opened : Bool} {before rest : List Token}

/-- Inside a group a token settles its content at once. -/
theorem settles_within {token : Token} {later : Bool} (inside : token ≠ .rightParen)
    (within : ∀ depth, commasInside depth (token :: rest) = commasInside depth rest)
    (place : later = signPlace (token :: before)) :
    Outline.Settles before rest ⟨groups, none, expects, opened⟩ token
      (⟨groups, none, later, false⟩, token.content before rest) := by
  refine ⟨⟨by simp, fun _ => place⟩, ?_⟩
  rw [unfinished_within groups expects opened rest token later inside within]

theorem settles_leftParen (function : Option Builtin) :
    Outline.Settles before rest ⟨groups, function, expects, opened⟩ .leftParen
      (⟨function.map (·, 0) :: groups, none, true, true⟩, []) := by
  refine ⟨⟨by simp, fun _ => rfl⟩, ?_⟩
  rw [← unfinished_leftParen]
  rfl

/-- The name of a function leaves its call unfinished. -/
theorem settles_function {text : String} {f : Builtin} (function : Builtin.ofName? text = some f)
    (opens : rest.head? = some .leftParen) :
    Outline.Settles before rest ⟨groups, none, expects, opened⟩ (.name text) (⟨groups, some f, expects, false⟩, []) := by
  refine ⟨⟨fun _ => opens, by simp⟩, ?_⟩
  rw [← unfinished_within groups expects opened rest (.name text) expects (by simp) fun _ => rfl, Token.content, function]
  rfl

theorem settles_constant {text : String} {value : Float} (known : constant? text = some value) :
    Outline.Settles before rest ⟨groups, none, expects, opened⟩ (.name text)
      (⟨groups, none, false, false⟩, [.number value]) := by
  have content : (Token.name text).content before rest = [.number value] := by
    rw [Token.content, ofName_eq_none_of_constant known, known]
    rfl
  rw [← content]
  exact settles_within (by simp) (fun _ => rfl) rfl

theorem settles_sign (place : signPlace before = true) :
    Outline.Settles before rest ⟨groups, none, expects, opened⟩ (.operator .sub)
      (⟨groups, none, true, false⟩, [.negate]) := by
  have content : (Token.operator .sub).content before rest = [.negate] := if_pos ⟨rfl, place⟩
  rw [← content]
  exact settles_within (by simp) (fun _ => rfl) rfl

theorem settles_binary {op : Operator} (binary : ¬(op = .sub ∧ signPlace before = true)) :
    Outline.Settles before rest ⟨groups, none, expects, opened⟩ (.operator op)
      (⟨groups, none, true, false⟩, [.operator op]) := by
  have content : (Token.operator op).content before rest = [.operator op] := if_neg binary
  rw [← content]
  exact settles_within (by simp) (fun _ => rfl) rfl

theorem settles_closeGroup :
    Outline.Settles before rest ⟨none :: groups, none, expects, opened⟩ .rightParen
      (⟨groups, none, false, false⟩, []) := by
  refine ⟨⟨by simp, fun _ => rfl⟩, ?_⟩
  rw [← unfinished_closeGroup]
  rfl

theorem settles_closeCall (f : Builtin) (commas : Nat) :
    Outline.Settles before rest ⟨some (f, commas) :: groups, none, expects, opened⟩ .rightParen
      (⟨groups, none, false, false⟩, [.call ⟨f, if opened then 0 else commas + 1⟩]) := by
  refine ⟨⟨by simp, fun _ => rfl⟩, ?_⟩
  rw [← unfinished_closeCall]
  rfl

theorem settles_comma (f : Builtin) (commas : Nat) :
    Outline.Settles before rest ⟨some (f, commas) :: groups, none, expects, opened⟩ .separator
      (⟨some (f, commas + 1) :: groups, none, true, false⟩, []) := by
  refine ⟨⟨by simp, fun _ => rfl⟩, ?_⟩
  rw [← unfinished_comma]
  rfl

end Settles

theorem Outline.Move.settles {outline later : Outline} {token : Token} {before rest put : List Token}
    (move : outline.Move token later put) (knows : outline.Knows before (token :: rest))
    (opens : later.function.isSome = true → rest.head? = some .leftParen) :
    outline.Settles before rest token (later, put) := by
  obtain ⟨_, place⟩ := knows
  cases move with
  | number => exact settles_within (by simp) (fun _ => rfl) rfl
  | constant known => exact settles_constant known
  | function function => exact settles_function function (opens rfl)
  | sign => exact settles_sign (place rfl).symm
  | binary binary => exact settles_binary (place rfl ▸ binary)
  | leftParen function => exact settles_leftParen function
  | closeGroup => exact settles_closeGroup
  | closeCall f commas => exact settles_closeCall f commas
  | comma f commas => exact settles_comma f commas

theorem Outline.step_settles {outline later : Outline} {token : Token} {before rest put : List Token}
    (knows : outline.Knows before (token :: rest)) (step : outline.step token rest.head? = .ok (later, put)) :
    outline.Settles before rest token (later, put) := by
  cases lexed : token.isLexed with
  | true =>
    obtain ⟨move, opens⟩ := Outline.step_move lexed (fun some => Option.some.inj (knows.1 some)) step
    exact move.settles knows opens
  | false =>
    obtain ⟨groups, function, expects, opened⟩ := outline
    cases function with
    | some f =>
      cases Option.some.inj (knows.1 rfl)
      cases lexed
    | none =>
      cases token with
      | number | name | operator | leftParen | rightParen | separator => cases lexed
      | call =>
        cases step
        exact settles_within (by simp) (fun _ => rfl) rfl
      | negate | blank =>
        cases step
        exact settles_within (by simp) (fun _ => rfl) (knows.2 rfl)

/-- A run settles the contents of its tokens and the calls that were unfinished at its start. -/
theorem Outline.run_contents {outline : Outline} {before tokens settled : List Token}
    (knows : outline.Knows before tokens) (run : outline.run tokens = .ok settled) :
    settled.Perm (contents before tokens ++ (outline.unfinished tokens).map .call) := by
  induction tokens generalizing outline before settled with
  | nil =>
    obtain ⟨groups, function, expects, opened⟩ := outline
    rw [Outline.run] at run
    split at run
    · rename_i closed
      cases closed
      cases run
      cases function with
      | none => exact .refl _
      | some f => cases knows.1 rfl
    · cases run
  | cons token rest ih =>
    rw [Outline.run] at run
    obtain ⟨⟨later, put⟩, step, run⟩ := bind_eq_ok.mp run
    obtain ⟨remaining, ran, run⟩ := bind_eq_ok.mp run
    cases run
    obtain ⟨knowsLater, same⟩ := Outline.step_settles knows step
    have others := ih knowsLater ran
    calc
      List.Perm (put ++ remaining) (put ++ (contents (token :: before) rest ++ (later.unfinished rest).map .call)) :=
        others.append_left put
      List.Perm _ (contents (token :: before) rest ++ (put ++ (later.unfinished rest).map .call)) :=
        List.perm_append_comm_assoc put _ _
      List.Perm _ (contents (token :: before) rest ++
          (token.content before rest ++ (outline.unfinished (token :: rest)).map .call)) := by rw [same]
      List.Perm _ (token.content before rest ++ (contents (token :: before) rest ++
          (outline.unfinished (token :: rest)).map .call)) := List.perm_append_comm_assoc _ _ _
      List.Perm _ _ := by rw [contents, List.append_assoc]

theorem toPostfix_contents {tokens output : List Token} (converted : toPostfix tokens = .ok output) :
    output.Perm (contents [] tokens) := by
  have agree := toPostfix_outline tokens
  rw [converted] at agree
  generalize outlined : Outline.run {} tokens = result at agree
  cases agree with
  | @ok _ settled perm =>
    have start : Outline.Knows {} [] tokens := ⟨by simp, fun _ => rfl⟩
    have settles := Outline.run_contents start outlined
    have none : Outline.unfinished {} tokens = [] := rfl
    rw [none, List.map_nil, List.append_nil] at settles
    exact perm.trans settles

/-- What waits in a conversion is never a number. -/
theorem flush_numbers (entries : List Pending) :
    (entries.flatMap Pending.flush).filterMap Token.number? = [] := by
  induction entries with
  | nil => rfl
  | cons entry rest ih =>
    rw [List.flatMap_cons, List.filterMap_append, ih, List.append_nil]
    cases entry with
    | binary | negate | function | group => rfl

theorem endCall_numbers (empty : Bool) (separators : Nat) (below : List Pending) :
    (endCall empty separators below).2.filterMap Token.number? = [] := by
  unfold endCall
  split
  · rfl
  · rfl

theorem close_numbers {empty : Bool} {pending below : List Pending} {output : List Token}
    (closed : close empty pending = .ok (below, output)) : output.filterMap Token.number? = [] := by
  simp only [close] at closed
  split at closed
  · cases closed
    rw [List.filterMap_append, flush_numbers, endCall_numbers]
    rfl
  · cases closed
    exact flush_numbers _
  · cases closed

theorem separate_numbers {pending below : List Pending} {output : List Token}
    (separated : separate pending = .ok (below, output)) : output.filterMap Token.number? = [] := by
  simp only [separate] at separated
  split at separated
  · cases separated
    exact flush_numbers _
  · cases separated

theorem Conversion.read_numbers {state later : Conversion} {token : Token} {next : Option Token}
    {output : List Token} (read : state.read token next = .ok (later, output)) :
    output.filterMap Token.number? = token.operand?.toList := by
  cases token with
  | number | call | negate | leftParen | blank =>
    cases read
    rfl
  | name text =>
    simp only [Conversion.read, Conversion.readName] at read
    rw [Token.operand?]
    split at read
    · rename_i f function
      split at read
      · cases read
        cases known : constant? text with
        | none => rfl
        | some value =>
          rw [ofName_eq_none_of_constant known] at function
          cases function
      · cases read
    · split at read
      · rename_i value known
        cases read
        rw [known]
        rfl
      · cases read
  | operator op =>
    simp only [Conversion.read] at read
    split at read
    · cases read
      rfl
    · cases read
      exact flush_numbers _
  | rightParen =>
    obtain ⟨⟨below, leaves⟩, closed, read⟩ := bind_eq_ok.mp read
    cases read
    exact close_numbers closed
  | separator =>
    obtain ⟨⟨below, leaves⟩, separated, read⟩ := bind_eq_ok.mp read
    cases read
    exact separate_numbers separated

/-- Numbers are put out as soon as they are read, so that they keep their order. -/
theorem Conversion.run_numbers {state : Conversion} {tokens output : List Token}
    (run : state.run tokens = .ok output) :
    output.filterMap Token.number? = tokens.filterMap Token.operand? := by
  induction tokens generalizing state output with
  | nil =>
    simp only [Conversion.run, finish] at run
    split at run
    · cases run
      exact flush_numbers _
    · cases run
  | cons token rest ih =>
    rw [Conversion.run] at run
    obtain ⟨⟨later, put⟩, step, run⟩ := bind_eq_ok.mp run
    obtain ⟨remaining, ran, run⟩ := bind_eq_ok.mp run
    cases run
    obtain ⟨⟨next, read⟩, first, step⟩ := bind_eq_ok.mp step
    cases step
    rw [List.filterMap_append, Conversion.read_numbers first, ih ran]
    cases operand : token.operand? with
    | none => exact (List.filterMap_cons_none operand).symm
    | some value => exact (List.filterMap_cons_some operand).symm

theorem step_unknownToken {stack : ValueStack} {token : Token} {text : String}
    (step : stack.step token = .error (.unknownToken text)) : token.isPostfix = false := by
  cases token with
  | number => cases step
  | negate =>
    cases stack with
    | nil | cons => cases step
  | operator op =>
    rcases stack with _ | ⟨right, _ | ⟨left, rest⟩⟩
    · cases step
    · cases step
    · cases Operator.apply_not_structural (map_eq_error.mp step)
  | call call => cases step_call_not_structural step
  | name | leftParen | rightParen | separator | blank => rfl

theorem run_unknownToken {stack : ValueStack} {tokens : List Token} {text : String}
    (run : ValueStack.run stack tokens = .error (.unknownToken text)) :
    ∃ token ∈ tokens, token.isPostfix = false := by
  induction tokens generalizing stack with
  | nil => cases run
  | cons token rest ih =>
    rw [run_cons] at run
    rcases bind_eq_error.mp run with step | ⟨next, _, later⟩
    · exact ⟨token, List.mem_cons_self .., step_unknownToken step⟩
    · obtain ⟨other, member, strange⟩ := ih later
      exact ⟨other, List.mem_cons_of_mem _ member, strange⟩

theorem evalPostfix_unknownToken {tokens : List Token} {text : String}
    (run : evalPostfix tokens = .error (.unknownToken text)) : ∃ token ∈ tokens, token.isPostfix = false := by
  rw [evalPostfix] at run
  rcases bind_eq_error.mp run with ran | ⟨stack, _, run⟩
  · exact run_unknownToken ran
  · rcases stack with _ | ⟨value, _ | ⟨second, rest⟩⟩
    · cases run
    · cases run
    · cases run

/-- What the postfix order of an expression has in common with it. -/
structure Rearranges (tokens output : List Token) : Prop where
  numbers : output.filterMap Token.number? = tokens.filterMap Token.operand?
  operators : ∀ op, output.count (.operator op) = binaryUses op [] tokens
  signs : output.count .negate = tokens.count .negate + minusSigns [] tokens
  calls : (output.filterMap Token.call?).Perm (writtenCalls tokens)
  plain : ∀ token ∈ output, token.isPostfix = true

theorem toPostfix_rearranges {tokens output : List Token} (converted : toPostfix tokens = .ok output) :
    Rearranges tokens output := by
  have perm := toPostfix_contents converted
  refine ⟨Conversion.run_numbers converted, fun op => ?_, ?_, ?_, fun token member => ?_⟩
  · rw [perm.count_eq, contents_operators]
  · rw [perm.count_eq, contents_signs]
  · have calls := perm.filterMap Token.call?
    rwa [contents_calls] at calls
  · exact contents_isPostfix [] tokens token (perm.mem_iff.mp member)

theorem evaluate_not_unknownToken {source text : String} :
    evaluate source ≠ .error (.arithmetic (.unknownToken text)) := by
  intro failed
  cases evaluate_fails failed with
  | evaluating _ converted evaluated =>
    obtain ⟨token, member, strange⟩ := evalPostfix_unknownToken evaluated
    have plain := (toPostfix_rearranges converted).plain token member
    rw [strange] at plain
    cases plain
  | rounding _ _ _ rounded => cases normalize_not_structural rounded

/-- A conversion loses, doubles and invents nothing: numbers keep their order, every operator, sign and
call is put out once, and nothing else is. So no evaluation of a text meets a token that is foreign to
postfix order. -/
theorem toPostfix_conserves :
    (∀ tokens output, toPostfix tokens = .ok output → Rearranges tokens output) ∧
    ∀ source text, evaluate source ≠ .error (.arithmetic (.unknownToken text)) :=
  ⟨fun _ _ converted => toPostfix_rearranges converted, fun _ _ => evaluate_not_unknownToken⟩

theorem toPostfix_conserves_signed_power :
    toPostfix [.operator .sub, .name "pow", .leftParen, .number 2, .separator, .operator .sub, .leftParen,
        .name "pi", .operator .sub, .number 3, .rightParen, .rightParen] =
      .ok [.number 2, .number piValue, .number 3, .operator .sub, .negate, .call ⟨.pow, 2⟩, .negate] ∧
    Rearranges [.operator .sub, .name "pow", .leftParen, .number 2, .separator, .operator .sub, .leftParen,
        .name "pi", .operator .sub, .number 3, .rightParen, .rightParen]
      [.number 2, .number piValue, .number 3, .operator .sub, .negate, .call ⟨.pow, 2⟩, .negate] := by
  have converted : toPostfix [.operator .sub, .name "pow", .leftParen, .number 2, .separator, .operator .sub,
        .leftParen, .name "pi", .operator .sub, .number 3, .rightParen, .rightParen] =
      .ok [.number 2, .number piValue, .number 3, .operator .sub, .negate, .call ⟨.pow, 2⟩, .negate] := by
    decide +kernel
  exact ⟨converted, toPostfix_conserves.1 _ _ converted⟩

end Calculator
