import Calculator.Postfix

namespace Calculator

/-- Operators and signs leave on their own. Functions and groups wait for a parenthesis. -/
def Pending.isOperator (entry : Pending) : Bool :=
  entry.precedence?.isSome

theorem Pending.isGroup_of_isOperator {entry : Pending} (operator : entry.isOperator = true) :
    entry.isGroup = false := by
  cases entry with
  | group => simp [Pending.isOperator, Pending.precedence?] at operator
  | binary | negate | function => rfl

theorem Pending.isOperator_of_goesBefore {entry : Pending} {op : Operator}
    (before : entry.goesBefore op = true) : entry.isOperator = true := by
  cases entry with
  | binary | negate => rfl
  | function | group => simp [Pending.goesBefore, Pending.precedence?] at before

/-- Held operators lie above the innermost group, so looking for that group takes exactly them. -/
theorem takeWhile_held {held below : List Pending} (operators : ∀ entry ∈ held, entry.isOperator = true)
    (outer : ∀ entry ∈ below.head?, entry.isGroup = true) :
    (held ++ below).takeWhile (!·.isGroup) = held := by
  have inside : ∀ entry ∈ held, (!entry.isGroup) = true := by
    intro entry member
    rw [Pending.isGroup_of_isOperator (operators entry member)]
    rfl
  rw [List.takeWhile_append_of_pos inside]
  cases below with
  | nil => simp
  | cons entry rest => simp [outer entry rfl]

theorem dropWhile_held {held below : List Pending} (operators : ∀ entry ∈ held, entry.isOperator = true)
    (outer : ∀ entry ∈ below.head?, entry.isGroup = true) :
    (held ++ below).dropWhile (!·.isGroup) = below := by
  have whole := List.takeWhile_append_dropWhile (p := fun entry : Pending => !entry.isGroup) (l := held ++ below)
  rw [takeWhile_held operators outer] at whole
  exact List.append_cancel_left whole

section Held

variable {held : List Pending} (operators : ∀ entry ∈ held, entry.isOperator = true)
include operators

theorem separate_call (count : Nat) (below : List Pending) :
    separate (held ++ .group true count :: below) =
      .ok (.group true (count + 1) :: below, held.flatMap Pending.flush) := by
  simp only [separate]
  rw [dropWhile_held operators (by simp [Pending.isGroup]), takeWhile_held operators (by simp [Pending.isGroup])]

theorem separate_plain (count : Nat) (below : List Pending) :
    separate (held ++ .group false count :: below) = .error .misplacedSeparator := by
  simp only [separate]
  rw [dropWhile_held operators (by simp [Pending.isGroup])]

/-- Outside every group the search runs off the end. -/
theorem dropWhile_outside : held.dropWhile (!·.isGroup) = [] := by
  have whole := @dropWhile_held held [] operators (by simp)
  rwa [List.append_nil] at whole

theorem separate_outside : separate held = .error .misplacedSeparator := by
  simp only [separate, dropWhile_outside operators]

theorem close_plain (empty : Bool) (count : Nat) (below : List Pending) :
    close empty (held ++ .group false count :: below) = .ok (below, held.flatMap Pending.flush) := by
  simp only [close]
  rw [dropWhile_held operators (by simp [Pending.isGroup]), takeWhile_held operators (by simp [Pending.isGroup])]

theorem close_call (empty : Bool) (count : Nat) (f : Builtin) (below : List Pending) :
    close empty (held ++ .group true count :: .function f :: below) =
      .ok (below, held.flatMap Pending.flush ++ [.call ⟨f, if empty then 0 else count + 1⟩]) := by
  simp only [close]
  rw [dropWhile_held operators (by simp [Pending.isGroup]), takeWhile_held operators (by simp [Pending.isGroup])]
  rfl

theorem close_outside (empty : Bool) : close empty held = .error .unbalancedParentheses := by
  simp only [close, dropWhile_outside operators]

theorem finish_outside : finish held = .ok (held.flatMap Pending.flush) := by
  have all : held.all (·.precedence?.isSome) = true := List.all_eq_true.mpr operators
  simp only [finish, all, if_true]

omit operators in
theorem finish_group (call : Bool) (count : Nat) (below : List Pending) :
    finish (held ++ .group call count :: below) = .error .unbalancedParentheses := by
  simp [finish, Pending.precedence?]

end Held

/-- An operator takes what goes before it from the top and stops at the rest. -/
theorem pushBinary_held {op : Operator} {held below : List Pending}
    (before : ∀ entry ∈ held, entry.goesBefore op = true)
    (stays : ∀ entry ∈ below.head?, entry.goesBefore op = false) :
    pushBinary op (held ++ below) = (.binary op :: below, held.flatMap Pending.flush) := by
  simp only [pushBinary]
  rw [List.takeWhile_append_of_pos before, List.dropWhile_append_of_pos before]
  cases below with
  | nil => simp
  | cons entry rest => simp [stays entry rfl]

end Calculator
