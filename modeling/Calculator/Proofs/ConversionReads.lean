import Calculator.Proofs.OperatorStack
import Calculator.Proofs.Outcome

namespace Calculator

theorem Conversion.run_cons {state next : Conversion} {token : Token} {rest output : List Token}
    (step : state.step token rest.head? = .ok (next, output)) :
    state.run (token :: rest) = (next.run rest).map (output ++ ·) := by
  rw [Conversion.run, step]
  rfl

/-- Reading `tokens` leads from one state to another and adds `output`, whatever follows them. -/
def Conversion.Reads (start : Conversion) (tokens : List Token) (stop : Conversion) (output : List Token) : Prop :=
  ∀ rest, start.run (tokens ++ rest) = (stop.run rest).map (output ++ ·)

theorem Conversion.Reads.nil (state : Conversion) : state.Reads [] state [] := by
  intro rest
  exact (map_nil_append (state.run rest)).symm

theorem Conversion.Reads.append {start middle stop : Conversion} {tokens more output later : List Token}
    (first : start.Reads tokens middle output) (second : middle.Reads more stop later) :
    start.Reads (tokens ++ more) stop (output ++ later) := by
  intro rest
  rw [List.append_assoc, first, second, map_map_append]

/-- A step that does not look at the token after it. -/
theorem Conversion.Reads.single {start stop : Conversion} {token : Token} {output : List Token}
    (step : ∀ next, start.step token next = .ok (stop, output)) : start.Reads [token] stop output := by
  intro rest
  exact Conversion.run_cons (step rest.head?)

theorem Conversion.Reads.toPostfix {stop : Conversion} {tokens output : List Token}
    (reads : Conversion.Reads {} tokens stop output)
    (operators : ∀ entry ∈ stop.pending, entry.isOperator = true) :
    Calculator.toPostfix tokens = .ok (output ++ stop.pending.flatMap Pending.flush) := by
  have ran := reads []
  rw [List.append_nil] at ran
  rw [Calculator.toPostfix, ran, Conversion.run, finish_outside operators]
  rfl

section Token

variable (pending : List Pending) (expects opened : Bool)

theorem reads_number (value : Float) :
    Conversion.Reads ⟨pending, expects, opened, false⟩ [.number value]
      { pending := pending, expectsOperand := false } [.number value] :=
  .single fun _ => rfl

theorem reads_constant {name : String} {value : Float} (function : Builtin.ofName? name = none)
    (known : constant? name = some value) :
    Conversion.Reads { pending := pending, justOpened := opened } [.name name]
      { pending := pending, expectsOperand := false } [.number value] := by
  refine .single fun next => ?_
  simp only [Conversion.step, Conversion.read, Conversion.readName, function, known]
  rfl

theorem reads_sign :
    Conversion.Reads { pending := pending, justOpened := opened } [.operator .sub]
      { pending := .negate :: pending } [] :=
  .single fun _ => rfl

theorem reads_open :
    Conversion.Reads ⟨pending, expects, opened, false⟩ [.leftParen]
      { pending := .group false 0 :: pending, justOpened := true } [] :=
  .single fun _ => rfl

/-- A function and its parenthesis are read together: the name alone looks ahead. -/
theorem reads_function {name : String} {f : Builtin} (function : Builtin.ofName? name = some f) :
    Conversion.Reads ⟨pending, expects, opened, false⟩ [.name name, .leftParen]
      { pending := .group true 0 :: .function f :: pending, justOpened := true } [] := by
  intro rest
  have named : Conversion.step ⟨pending, expects, opened, false⟩ (.name name) (some .leftParen) =
      .ok (⟨.function f :: pending, expects, false, true⟩, []) := by
    simp only [Conversion.step, Conversion.read, Conversion.readName, function, if_true]
    rfl
  have opens : ∀ next, Conversion.step ⟨.function f :: pending, expects, false, true⟩ .leftParen next =
      .ok ({ pending := .group true 0 :: .function f :: pending, justOpened := true }, []) := fun _ => rfl
  calc
    Conversion.run ⟨pending, expects, opened, false⟩ (.name name :: .leftParen :: rest)
        = (Conversion.run ⟨.function f :: pending, expects, false, true⟩ (.leftParen :: rest)).map ([] ++ ·) :=
      Conversion.run_cons named
    _ = _ := by rw [Conversion.run_cons (opens _), map_map_append, List.append_nil]

end Token

section Held

variable {held : List Pending} (operators : ∀ entry ∈ held, entry.isOperator = true) (below : List Pending)
include operators

theorem reads_comma (count : Nat) (expects opened : Bool) :
    Conversion.Reads ⟨held ++ .group true count :: below, expects, opened, false⟩ [.separator]
      { pending := .group true (count + 1) :: below } (held.flatMap Pending.flush) := by
  refine .single fun next => ?_
  simp only [Conversion.step, Conversion.read, separate_call operators]
  rfl

theorem reads_close (count : Nat) (expects opened : Bool) :
    Conversion.Reads ⟨held ++ .group false count :: below, expects, opened, false⟩ [.rightParen]
      { pending := below, expectsOperand := false } (held.flatMap Pending.flush) := by
  refine .single fun next => ?_
  simp only [Conversion.step, Conversion.read, close_plain operators]
  rfl

theorem reads_endCall (count : Nat) (f : Builtin) (expects empty : Bool) :
    Conversion.Reads { pending := held ++ .group true count :: .function f :: below
                       expectsOperand := expects, justOpened := empty } [.rightParen]
      { pending := below, expectsOperand := false }
      (held.flatMap Pending.flush ++ [.call ⟨f, if empty then 0 else count + 1⟩]) := by
  refine .single fun next => ?_
  simp only [Conversion.step, Conversion.read, close_call operators]
  rfl

end Held

/-- An operator between two operands lets the entries leave that go before it. -/
theorem reads_binary {op : Operator} {held below : List Pending}
    (before : ∀ entry ∈ held, entry.goesBefore op = true)
    (stays : ∀ entry ∈ below.head?, entry.goesBefore op = false) :
    Conversion.Reads { pending := held ++ below, expectsOperand := false } [.operator op]
      { pending := .binary op :: below } (held.flatMap Pending.flush) := by
  refine .single fun next => ?_
  simp only [Conversion.step, Conversion.read, pushBinary_held before stays, Bool.false_eq_true, and_false, if_false]
  rfl

end Calculator
