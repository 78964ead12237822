import Calculator.Proofs.Grammar
import Calculator.Proofs.Outline

namespace Calculator

theorem Derives.extendPower {body operand : List Token} {t u : Expression} (derived : Derives .power body t)
    (next : Derives .unary operand u) : ∃ v, Derives .power (body ++ .operator .pow :: operand) v := by
  generalize same : Stratum.power = stratum at derived
  induction derived with
  | unary inner _ => exact ⟨_, .raise inner (.unary next)⟩
  | raise left _ _ ih =>
    obtain ⟨v, longer⟩ := ih rfl
    exact ⟨_, by simpa only [List.append_assoc, List.cons_append] using Derives.raise left longer⟩
  | _ => cases same

theorem Derives.extendTerm {op : Operator} {body operand : List Token} {t u : Expression}
    (higher : op ≠ .add ∧ op ≠ .sub) (derived : Derives .term body t) (next : Derives .unary operand u) :
    ∃ v, Derives .term (body ++ .operator op :: operand) v := by
  cases op with
  | add => exact absurd rfl higher.1
  | sub => exact absurd rfl higher.2
  | mul => exact ⟨_, .product (.inl rfl) derived (.unary next)⟩
  | div => exact ⟨_, .product (.inr rfl) derived (.unary next)⟩
  | pow =>
    cases derived with
    | power inner =>
      obtain ⟨v, longer⟩ := inner.extendPower next
      exact ⟨v, .power longer⟩
    | product either left right =>
      obtain ⟨v, longer⟩ := right.extendPower next
      exact ⟨_, by simpa only [List.append_assoc, List.cons_append] using Derives.product either left longer⟩

/-- An expression goes on with any operator and an operand, wherever in its tree they belong. -/
theorem Derives.extend {body operand : List Token} {t u : Expression} (derived : Derives .expr body t)
    (op : Operator) (next : Derives .unary operand u) :
    ∃ v, Derives .expr (body ++ .operator op :: operand) v := by
  by_cases lower : op = .add ∨ op = .sub
  · exact ⟨_, .sum lower derived (.power (.unary next))⟩
  · have higher : op ≠ .add ∧ op ≠ .sub := not_or.mp lower
    cases derived with
    | term inner =>
      obtain ⟨v, longer⟩ := inner.extendTerm higher next
      exact ⟨v, .term longer⟩
    | sum either left right =>
      obtain ⟨v, longer⟩ := right.extendTerm higher next
      exact ⟨_, by simpa only [List.append_assoc, List.cons_append] using Derives.sum either left longer⟩

/-- An expression has been read since some start. -/
def Holds (starts : List Token → Prop) (read : List Token) : Prop :=
  ∃ start body t, read = start ++ body ∧ Derives .expr body t ∧ starts start

/-- Any operand that comes next completes an expression. -/
def Leads (starts : List Token → Prop) (read : List Token) : Prop :=
  ∀ operand u, Derives .unary operand u → Holds starts (read ++ operand)

/-- What has been read where an expression starts inside the open groups. In an argument list whole
arguments may stand before it. -/
def Starts : List (Option (Builtin × Nat)) → List Token → Prop
  | [] => fun start => start = []
  | none :: outer => fun start => ∃ before, start = before ++ [.leftParen] ∧ Leads (Starts outer) before
  | some _ :: outer => fun start => ∃ before name f, ∃ args : List (List Token × Expression),
      start = before ++ .name name :: .leftParen :: args.flatMap (fun argument => argument.1 ++ [.separator]) ∧
      Builtin.ofName? name = some f ∧ (∀ argument ∈ args, Derives .expr argument.1 argument.2) ∧
      Leads (Starts outer) before

section Context

variable {starts : List Token → Prop} {read : List Token}

theorem leads_of_starts (start : starts read) : Leads starts read := by
  intro operand u derived
  exact ⟨read, operand, u, rfl, .term (.power (.unary derived)), start⟩

theorem Leads.sign (leads : Leads starts read) : Leads starts (read ++ [.operator .sub]) := by
  intro operand u derived
  rw [List.append_assoc]
  exact leads _ _ (.sign derived)

theorem Leads.primary {operand : List Token} {u : Expression} (leads : Leads starts read)
    (derived : Derives .primary operand u) : Holds starts (read ++ operand) :=
  leads operand u (.primary derived)

theorem Holds.operator (holds : Holds starts read) (op : Operator) :
    Leads starts (read ++ [.operator op]) := by
  intro operand u derived
  obtain ⟨start, body, t, rfl, inner, begun⟩ := holds
  obtain ⟨v, longer⟩ := inner.extend op derived
  refine ⟨start, body ++ .operator op :: operand, v, ?_, longer, begun⟩
  simp only [List.append_assoc, List.cons_append, List.nil_append]

end Context

section Groups

variable {outer : List (Option (Builtin × Nat))} {read : List Token}

theorem Leads.openGroup (leads : Leads (Starts outer) read) :
    Leads (Starts (none :: outer)) (read ++ [.leftParen]) :=
  leads_of_starts ⟨read, rfl, leads⟩

theorem Leads.openCall {name : String} {f : Builtin} {entry : Builtin × Nat} (leads : Leads (Starts outer) read)
    (function : Builtin.ofName? name = some f) :
    Leads (Starts (some entry :: outer)) (read ++ [.name name] ++ [.leftParen]) :=
  leads_of_starts ⟨read, name, f, [], by simp, function, by simp, leads⟩

theorem Holds.comma {entry later : Builtin × Nat} (holds : Holds (Starts (some entry :: outer)) read) :
    Leads (Starts (some later :: outer)) (read ++ [.separator]) := by
  obtain ⟨start, body, t, rfl, inner, before, name, f, args, rfl, function, derived, leads⟩ := holds
  refine leads_of_starts ⟨before, name, f, args ++ [(body, t)], by simp, function, ?_, leads⟩
  intro argument member
  rcases List.mem_append.mp member with earlier | last
  · exact derived argument earlier
  · cases List.mem_singleton.mp last
    exact inner

theorem Holds.closeGroup (holds : Holds (Starts (none :: outer)) read) :
    Holds (Starts outer) (read ++ [.rightParen]) := by
  obtain ⟨start, body, t, rfl, inner, before, rfl, leads⟩ := holds
  have closed := leads.primary (.group inner)
  simpa only [List.append_assoc, List.cons_append, List.nil_append] using closed

/-- Commas after all arguments but the last are commas before all but the first. -/
theorem separator_flatMap (args : List (List Token × Expression)) (last : List Token) :
    .separator :: (args.flatMap (fun argument => argument.1 ++ [.separator]) ++ last) =
      args.flatMap (fun argument => .separator :: argument.1) ++ .separator :: last := by
  induction args with
  | nil => rfl
  | cons argument rest ih =>
    simp only [List.flatMap_cons, List.append_assoc, List.cons_append, List.nil_append]
    rw [ih]

theorem Holds.closeCall {entry : Builtin × Nat} (holds : Holds (Starts (some entry :: outer)) read) :
    Holds (Starts outer) (read ++ [.rightParen]) := by
  obtain ⟨start, body, t, rfl, inner, before, name, f, args, rfl, function, derived, leads⟩ := holds
  cases args with
  | nil =>
    have call := @Derives.call name f body t [] function inner (by simp)
    simpa using leads.primary call
  | cons first rest =>
    have others : ∀ argument ∈ rest ++ [(body, t)], Derives .expr argument.1 argument.2 := by
      intro argument member
      rcases List.mem_append.mp member with earlier | last
      · exact derived argument (List.mem_cons_of_mem _ earlier)
      · cases List.mem_singleton.mp last
        exact inner
    have call := Derives.call function (derived first (List.mem_cons_self ..)) others
    have commas := separator_flatMap rest body
    simp only [List.flatMap_append, List.flatMap_cons, List.flatMap_nil, List.append_nil] at call
    rw [← commas] at call
    simpa using leads.primary call

end Groups

end Calculator
