import Calculator.Proofs.GroupContext
import Calculator.Proofs.GroupScan

namespace Calculator

/-!
Calls as they are written: from the name of a function to the parenthesis that closes its list, cut into
arguments at the commas that stand in no inner parentheses. Each argument is converted as if it stood
alone, and the call follows what its arguments put out.
-/

/-- What stands between the parentheses of a call, cut at its commas, and what stands after them. -/
structure WrittenCall where
  first : List Token
  others : List (List Token)
  after : List Token

/-- One more token in front. -/
def WrittenCall.cons (token : Token) (call : WrittenCall) : WrittenCall :=
  { call with first := token :: call.first }

/-- A comma in front. -/
def WrittenCall.comma (call : WrittenCall) : WrittenCall :=
  ⟨[], call.first :: call.others, call.after⟩

/-- Cuts a text up to the parenthesis that closes a list of arguments. `depth` counts the inner
parentheses that are open. -/
def cutCall (depth : Nat) : List Token → Option WrittenCall
  | [] => none
  | .leftParen :: rest => (cutCall (depth + 1) rest).map (.cons .leftParen)
  | .rightParen :: rest =>
    match depth with
    | 0 => some ⟨[], [], rest⟩
    | depth + 1 => (cutCall depth rest).map (.cons .rightParen)
  | .separator :: rest =>
    match depth with
    | 0 => (cutCall 0 rest).map .comma
    | depth + 1 => (cutCall (depth + 1) rest).map (.cons .separator)
  | token :: rest => (cutCall depth rest).map (.cons token)

/-- The call that a text goes on with after the name of its function. -/
def writtenCall? : List Token → Option WrittenCall
  | .leftParen :: inside => cutCall 0 inside
  | _ => none

namespace WrittenCall

def parts (call : WrittenCall) : List (List Token) :=
  call.first :: call.others

/-- The arguments of a call. Nothing between the parentheses is no argument. -/
def arguments (call : WrittenCall) : List (List Token) :=
  if call.parts = [[]] then [] else call.parts

/-- The text from the opening parenthesis to the closing one. -/
def text (call : WrittenCall) : List Token :=
  [.leftParen] ++ List.intercalate [.separator] call.parts ++ [.rightParen]

theorem intercalate_cons (token : Token) (call : WrittenCall) :
    List.intercalate [.separator] (call.cons token).parts = token :: List.intercalate [.separator] call.parts := by
  cases others : call.others with
  | nil => simp only [parts, cons, others, List.intercalate_singleton]
  | cons => simp only [parts, cons, others, List.intercalate_cons_cons, List.cons_append]

theorem intercalate_comma (call : WrittenCall) :
    List.intercalate [.separator] call.comma.parts = .separator :: List.intercalate [.separator] call.parts := by
  simp only [parts, comma, List.intercalate_cons_cons, List.nil_append, List.singleton_append]

theorem mem_intercalate {parts : List (List Token)} {part : List Token} {token : Token} (among : part ∈ parts)
    (member : token ∈ part) : token ∈ List.intercalate [.separator] parts := by
  induction parts with
  | nil => cases among
  | cons first rest ih =>
    cases rest with
    | nil =>
      cases List.mem_singleton.mp among
      rwa [List.intercalate_singleton]
    | cons =>
      rw [List.intercalate_cons_cons, List.mem_append]
      rcases List.mem_cons.mp among with rfl | later
      · exact .inl (List.mem_append_left _ member)
      · exact .inr (ih later)

/-- The arguments are written between the parentheses. -/
theorem mem_text {call : WrittenCall} {argument : List Token} {token : Token} (among : argument ∈ call.arguments)
    (member : token ∈ argument) : token ∈ call.text := by
  have part : argument ∈ call.parts := by
    rw [arguments] at among
    split at among
    · cases among
    · exact among
  exact List.mem_append_left _ (List.mem_append_right _ (mem_intercalate part member))

end WrittenCall

/-! ### Cutting what has been scanned -/

theorem scanStep_named {groups later : List Bool} {named after : Bool} {token : Token} {next : Option Token}
    (stepped : scanStep groups named token next = .ok (later, after)) :
    after = token.isFunctionName ∧ (token.isFunctionName = true → next = some .leftParen) := by
  cases token with
  | name text =>
    simp only [scanStep] at stepped
    simp only [Token.isFunctionName]
    split at stepped
    · next function =>
      split at stepped
      · next opens =>
        cases stepped
        exact ⟨function.symm, fun _ => opens⟩
      · cases stepped
    · next other =>
      have plain := Bool.eq_false_iff.mpr other
      split at stepped
      · cases stepped
        exact ⟨plain.symm, fun function => absurd function other⟩
      · cases stepped
  | number | operator | negate | leftParen | call | blank =>
    cases stepped
    exact ⟨rfl, fun function => absurd function Bool.false_ne_true⟩
  | rightParen =>
    simp only [scanStep] at stepped
    split at stepped
    · cases stepped
    · cases stepped
      exact ⟨rfl, fun function => absurd function Bool.false_ne_true⟩
  | separator =>
    simp only [scanStep] at stepped
    split at stepped
    · cases stepped
      exact ⟨rfl, fun function => absurd function Bool.false_ne_true⟩
    · cases stepped

/-- Before a token that is no opening parenthesis no function has been named. -/
theorem scanGroups_prefix {groups : List Bool} {named : Bool} {before rest : List Token} {token : Token}
    (start : before = [] → named = false) (other : token ≠ .leftParen)
    (scanned : scanGroups groups named (before ++ token :: rest) = .ok ()) :
    (∀ last ∈ before.getLast?, last.isFunctionName = false) ∧
      ∃ later, scanGroups later false (token :: rest) = .ok () := by
  induction before generalizing groups named with
  | nil =>
    cases start rfl
    exact ⟨fun last member => (nomatch member), groups, scanned⟩
  | cons first more ih =>
    rw [List.cons_append, scanGroups] at scanned
    obtain ⟨⟨later, after⟩, stepped, scanned⟩ := bind_eq_ok.mp scanned
    obtain ⟨rfl, opens⟩ := scanStep_named stepped
    have plain : more = [] → first.isFunctionName = false := by
      rintro rfl
      refine Bool.eq_false_iff.mpr fun function => other ?_
      exact Option.some.inj (opens function)
    obtain ⟨free, found⟩ := ih plain scanned
    refine ⟨fun last member => ?_, found⟩
    cases more with
    | nil =>
      cases member
      exact plain rfl
    | cons => exact free last member

theorem cutCall_opens {depth : Nat} {tokens : List Token} {call : WrittenCall} (cut : cutCall depth tokens = some call)
    (opens : tokens.head? = some .leftParen) : call.first.head? = some .leftParen := by
  cases tokens with
  | nil => cases opens
  | cons token rest =>
    cases opens
    obtain ⟨inner, _, rfl⟩ := Option.map_eq_some_iff.mp cut
    rfl

/-- A text cut where a list of arguments closes. The first part goes on inside the groups that are open in it,
and the others stand alone. -/
structure WrittenCall.Cuts (inside : List Bool) (named : Bool) (tokens : List Token) (call : WrittenCall) : Prop where
  found : cutCall inside.length tokens = some call
  whole : tokens = List.intercalate [.separator] call.parts ++ .rightParen :: call.after
  first : scanGroups inside named call.first = .ok ()
  others : ∀ part ∈ call.others, scanGroups [] false part = .ok ()

section Cuts

variable {inside deeper : List Bool} {named after : Bool} {token : Token} {rest : List Token} {call : WrittenCall}

/-- A token that stays inside the list joins the first part. -/
theorem WrittenCall.Cuts.join (cuts : call.Cuts deeper after rest)
    (keeps : cutCall inside.length (token :: rest) = (cutCall deeper.length rest).map (.cons token))
    (step : scanStep inside named token call.first.head? = .ok (deeper, after)) :
    (call.cons token).Cuts inside named (token :: rest) where
  found := by rw [keeps, cuts.found, Option.map_some]
  whole := by
    rw [intercalate_cons, List.cons_append]
    exact congrArg (token :: ·) cuts.whole
  first := by
    rw [WrittenCall.cons, scanGroups, step]
    exact cuts.first
  others := cuts.others

theorem WrittenCall.Cuts.comma (cuts : call.Cuts [] false rest) : call.comma.Cuts [] named (.separator :: rest) where
  found := congrArg (Option.map WrittenCall.comma) cuts.found
  whole := by
    rw [intercalate_comma, List.cons_append]
    exact congrArg (.separator :: ·) cuts.whole
  first := rfl
  others := List.forall_mem_cons.mpr ⟨cuts.first, cuts.others⟩

end Cuts

/-- Where a list of arguments is open, what has been scanned can be cut. -/
theorem cutCall_of_scan {inside below : List Bool} {named : Bool} {tokens : List Token}
    (scanned : scanGroups (inside ++ true :: below) named tokens = .ok ()) :
    ∃ call : WrittenCall, call.Cuts inside named tokens := by
  induction tokens generalizing inside named with
  | nil =>
    rw [scanGroups, if_neg (by simp)] at scanned
    cases scanned
  | cons token rest ih =>
    rw [scanGroups] at scanned
    obtain ⟨⟨groups, after⟩, stepped, scanned⟩ := bind_eq_ok.mp scanned
    have joins : ∀ deeper : List Bool, groups = deeper ++ true :: below →
        (∀ next, (token.isFunctionName = true → next = some .leftParen) →
          scanStep inside named token next = .ok (deeper, after)) →
        cutCall inside.length (token :: rest) = (cutCall deeper.length rest).map (.cons token) →
        ∃ call : WrittenCall, call.Cuts inside named (token :: rest) := by
      intro deeper same step keeps
      subst same
      obtain ⟨call, cuts⟩ := ih scanned
      obtain ⟨_, opens⟩ := scanStep_named stepped
      exact ⟨_, cuts.join keeps (step _ fun function => cutCall_opens cuts.found (opens function))⟩
    cases token with
    | number | operator | negate | call | blank =>
      cases stepped
      exact joins inside rfl (fun _ _ => rfl) rfl
    | leftParen =>
      cases stepped
      exact joins (named :: inside) rfl (fun _ _ => rfl) rfl
    | name text =>
      simp only [scanStep] at stepped
      split at stepped
      · next function =>
        split at stepped
        · cases stepped
          refine joins inside rfl (fun next opens => ?_) rfl
          rw [scanStep, if_pos function, if_pos (opens function)]
        · cases stepped
      · next other =>
        split at stepped
        · next known =>
          cases stepped
          refine joins inside rfl (fun next _ => ?_) rfl
          rw [scanStep, if_neg other, if_pos known]
        · cases stepped
    | rightParen =>
      cases inside with
      | nil => exact ⟨⟨[], [], rest⟩, rfl, rfl, rfl, by simp⟩
      | cons group inside =>
        cases stepped
        exact joins inside rfl (fun _ _ => rfl) rfl
    | separator =>
      cases inside with
      | nil =>
        cases stepped
        obtain ⟨call, cuts⟩ := @ih [] _ scanned
        exact ⟨_, cuts.comma⟩
      | cons group inside =>
        cases group with
        | true =>
          cases stepped
          exact joins (true :: inside) rfl (fun _ _ => rfl) rfl
        | false => cases stepped

/-- A text is converted exactly if its groups can be scanned. -/
theorem converted_iff_scanned {tokens : List Token} :
    (∃ output, toPostfix tokens = .ok output) ↔ scanGroups [] false tokens = .ok () := by
  have settles := Outline.run_scan {} (fun named => absurd named (by simp) : _ → tokens.head? = _)
  have agree := toPostfix_outline tokens
  change _ = scanGroups [] false tokens at settles
  rw [← settles]
  generalize toPostfix tokens = converted at agree ⊢
  generalize Outline.run {} tokens = settled at agree ⊢
  cases agree with
  | ok => exact ⟨fun _ => rfl, fun _ => ⟨_, rfl⟩⟩
  | error =>
    constructor
    · rintro ⟨output, converted⟩
      cases converted
    · intro scanned
      cases scanned

theorem Builtin.ofName?_name (f : Builtin) : Builtin.ofName? f.name = some f := by
  cases f <;> rfl

/-! ### Converting a call -/

theorem WrittenCall.reads (call : WrittenCall) {outputs : List (List Token)}
    (converted : List.Forall₂ (fun argument output => toPostfix argument = .ok output) call.arguments outputs)
    (f : Builtin) :
    ReadsAsOperand (.name f.name :: call.text) (outputs.flatten ++ [.call ⟨f, call.arguments.length⟩]) := by
  by_cases none : call.parts = [[]]
  · have empty : call.arguments = [] := if_pos none
    rw [empty] at converted ⊢
    cases converted
    intro pending expects opened
    have opens := reads_function pending expects opened f.ofName?_name
    have closes := @reads_endCall [] (by simp) pending 0 f true true
    rw [text, none]
    exact opens.append closes
  · have all : call.arguments = call.parts := if_neg none
    rw [all] at converted ⊢
    exact reads_call converted (List.cons_ne_nil _ _) none f

theorem exists_converted {arguments : List (List Token)}
    (scanned : ∀ argument ∈ arguments, scanGroups [] false argument = .ok ()) :
    ∃ parts, List.Forall₂ (fun argument part => toPostfix argument = .ok part) arguments parts := by
  induction arguments with
  | nil => exact ⟨[], .nil⟩
  | cons argument rest ih =>
    obtain ⟨first, others⟩ := List.forall_mem_cons.mp scanned
    obtain ⟨part, converted⟩ := converted_iff_scanned.mpr first
    obtain ⟨parts, convertedRest⟩ := ih others
    exact ⟨part :: parts, .cons converted convertedRest⟩

theorem writtenCall?_of_scan {groups : List Bool} {rest : List Token} {f : Builtin}
    (scanned : scanGroups groups false (.name f.name :: rest) = .ok ()) :
    ∃ call, writtenCall? rest = some call ∧ rest = call.text ++ call.after ∧
      ∀ argument ∈ call.arguments, scanGroups [] false argument = .ok () := by
  rw [scanGroups] at scanned
  obtain ⟨⟨later, after⟩, named, scanned⟩ := bind_eq_ok.mp scanned
  have opens := (scanStep_named named).2 (by rw [Token.isFunctionName, f.ofName?_name]; rfl)
  rw [scanStep, f.ofName?_name, Option.isSome_some, if_pos rfl, if_pos opens] at named
  cases named
  cases rest with
  | nil => cases opens
  | cons token inside =>
    cases opens
    obtain ⟨call, cut, whole, first, others⟩ := @cutCall_of_scan [] groups false inside scanned
    refine ⟨call, cut, ?_, ?_⟩
    · rw [WrittenCall.text, List.append_assoc, List.append_assoc, List.singleton_append, List.singleton_append, ← whole]
    · rw [WrittenCall.arguments]
      split
      · simp
      · exact List.forall_mem_cons.mpr ⟨first, others⟩

/-- Every call in a text that is converted can be cut into its arguments. What they put out, and then the call,
stands where a number in the place of the call would. -/
theorem toPostfix_call {before rest output : List Token} {f : Builtin}
    (converted : toPostfix (before ++ .name f.name :: rest) = .ok output) :
    ∃ (call : WrittenCall) (parts : List (List Token)) (early late : List Token), writtenCall? rest = some call ∧
      rest = call.text ++ call.after ∧
      List.Forall₂ (fun argument part => toPostfix argument = .ok part) call.arguments parts ∧
      output = early ++ parts.flatten ++ .call ⟨f, call.arguments.length⟩ :: late ∧
      ∀ x, toPostfix (before ++ .number x :: call.after) = .ok (early ++ .number x :: late) := by
  obtain ⟨plain, groups, scanned⟩ := scanGroups_prefix (fun _ => rfl) (by simp) (converted_iff_scanned.mp ⟨output, converted⟩)
  obtain ⟨call, written, whole, inner⟩ := writtenCall?_of_scan scanned
  obtain ⟨parts, each⟩ := exists_converted inner
  have tokens : before ++ .name f.name :: rest = before ++ (.name f.name :: call.text) ++ call.after := by
    rw [List.append_assoc, List.cons_append, ← whole]
  rcases actsAsNumber plain call.after (call.reads each f) with ⟨cause, _, failed⟩ | ⟨early, late, number, result⟩
  · rw [← tokens, converted] at failed
    cases failed
  · rw [← tokens, converted] at result
    refine ⟨call, parts, early, late, written, whole, each, ?_, fun x => ?_⟩
    · simpa only [List.append_assoc, List.singleton_append] using Except.ok.inj result
    · simpa only [List.append_assoc, List.singleton_append] using number x

end Calculator
