namespace Calculator

section

variable {ε ζ α β : Type} {x : Except ε α}

theorem bind_eq_ok {f : α → Except ε β} {b : β} : x >>= f = .ok b ↔ ∃ a, x = .ok a ∧ f a = .ok b := by
  cases x with
  | error => simp [bind, Except.bind]
  | ok => simp [bind, Except.bind]

theorem bind_eq_error {f : α → Except ε β} {cause : ε} :
    x >>= f = .error cause ↔ x = .error cause ∨ ∃ a, x = .ok a ∧ f a = .error cause := by
  cases x with
  | error => simp [bind, Except.bind]
  | ok => simp [bind, Except.bind]

theorem map_eq_ok {f : α → β} {b : β} : x.map f = .ok b ↔ ∃ a, x = .ok a ∧ f a = b := by
  cases x with
  | error => simp [Except.map]
  | ok => simp [Except.map]

theorem map_eq_error {f : α → β} {cause : ε} : x.map f = .error cause ↔ x = .error cause := by
  cases x with
  | error => simp [Except.map]
  | ok => simp [Except.map]

theorem mapError_eq_ok {f : ε → ζ} {a : α} : x.mapError f = .ok a ↔ x = .ok a := by
  cases x with
  | error =>
    constructor
    · intro same
      cases same
    · intro same
      cases same
  | ok =>
    constructor
    · intro same
      cases same
      rfl
    · intro same
      cases same
      rfl

theorem mapError_eq_error {f : ε → ζ} {cause : ζ} :
    x.mapError f = .error cause ↔ ∃ inner, x = .error inner ∧ f inner = cause := by
  cases x with
  | error inner =>
    constructor
    · intro same
      cases same
      exact ⟨inner, rfl, rfl⟩
    · rintro ⟨inner, same, rfl⟩
      cases same
      rfl
  | ok =>
    constructor
    · intro same
      cases same
    · rintro ⟨inner, same, _⟩
      cases same

end

theorem map_nil_append {ε α : Type} (result : Except ε (List α)) : result.map ([] ++ ·) = result := by
  cases result with
  | error | ok => rfl

theorem map_map_append {ε α : Type} (result : Except ε (List α)) (output later : List α) :
    (result.map (later ++ ·)).map (output ++ ·) = result.map ((output ++ later) ++ ·) := by
  cases result with
  | error => rfl
  | ok items => simp only [Except.map, List.append_assoc]

/-- Two runs end alike: with the same error, or with results that are related. -/
inductive Agree {ε α β : Type} (related : α → β → Prop) : Except ε α → Except ε β → Prop
  | error (cause) : Agree related (.error cause) (.error cause)
  | ok {a b} : related a b → Agree related (.ok a) (.ok b)

theorem Agree.bind {ε α β γ δ : Type} {related : α → β → Prop} {after : γ → δ → Prop} {x : Except ε α}
    {y : Except ε β} {f : α → Except ε γ} {g : β → Except ε δ} (first : Agree related x y)
    (second : ∀ a b, related a b → Agree after (f a) (g b)) : Agree after (x >>= f) (y >>= g) := by
  cases first with
  | error cause => exact .error cause
  | ok both => exact second _ _ both

theorem Agree.mono {ε α β : Type} {related wider : α → β → Prop} {x : Except ε α} {y : Except ε β}
    (agree : Agree related x y) (implies : ∀ a b, related a b → wider a b) : Agree wider x y := by
  cases agree with
  | error cause => exact .error cause
  | ok both => exact .ok (implies _ _ both)

end Calculator
