/-!
# Outcomes step by step

A computation that may fail is a chain of steps. `bind_eq_ok` opens one step of a chain that
succeeds, and `bind_eq_error` one step of a chain that fails.
-/

set_option autoImplicit false

namespace Outline

variable {ε α β : Type}

/-- A chain succeeds when its first step does and the rest succeeds on the result. -/
theorem bind_eq_ok {first : Except ε α} {next : α → Except ε β} {b : β} :
    first >>= next = .ok b ↔ ∃ a, first = .ok a ∧ next a = .ok b := by
  cases first with
  | error e =>
    constructor
    · intro failed
      cases failed
    · rintro ⟨a, ok, _⟩
      cases ok
  | ok a =>
    constructor
    · intro more
      exact ⟨a, rfl, more⟩
    · rintro ⟨a', same, more⟩
      obtain rfl := Except.ok.inj same
      exact more

/-- A chain fails when its first step does, or when the rest does on the result. -/
theorem bind_eq_error {first : Except ε α} {next : α → Except ε β} {e : ε} :
    first >>= next = .error e ↔ first = .error e ∨ ∃ a, first = .ok a ∧ next a = .error e := by
  cases first with
  | error e' =>
    constructor
    · intro failed
      obtain rfl : e' = e := Except.error.inj failed
      exact .inl rfl
    · rintro (same | ⟨a, ok, _⟩)
      · obtain rfl := Except.error.inj same
        rfl
      · cases ok
  | ok a =>
    constructor
    · intro failed
      exact .inr ⟨a, rfl, failed⟩
    · rintro (failed | ⟨a', same, failed⟩)
      · cases failed
      · obtain rfl := Except.ok.inj same
        exact failed

/-- Steps that agree up to a change of their results make chains that do. -/
theorem bind_map {α' β' : Type} {first : Except ε α} {first' : Except ε α'} {f : α → α'}
    {g : β → β'} {next : α → Except ε β} {next' : α' → Except ε β'} (same : first' = first.map f)
    (step : ∀ a, first = .ok a → next' (f a) = (next a).map g) :
    first' >>= next' = (first >>= next).map g := by
  subst same
  cases first with
  | error e => rfl
  | ok a => exact step a rfl

/-- Two programs that agree up to a map after the first step agree up to that map. -/
theorem bind_map_right {β' : Type} {first : Except ε α} {g : β → β'} {next : α → Except ε β}
    {next' : α → Except ε β'} (step : ∀ a, first = .ok a → next' a = (next a).map g) :
    first >>= next' = (first >>= next).map g :=
  bind_map (congrFun Except.map_id first).symm step

theorem eq_ok_of_toOption {outcome : Except ε α} {a : α} (found : outcome.toOption = some a) :
    outcome = .ok a := by
  cases outcome with
  | error e => cases found
  | ok b =>
    obtain rfl := Option.some.inj found
    rfl

theorem map_eq_ok {outcome : Except ε α} {f : α → β} {b : β} :
    outcome.map f = .ok b ↔ ∃ a, outcome = .ok a ∧ f a = b := by
  cases outcome with
  | error e =>
    constructor
    · intro failed
      cases failed
    · rintro ⟨a, ok, _⟩
      cases ok
  | ok a =>
    constructor
    · intro same
      exact ⟨a, rfl, Except.ok.inj same⟩
    · rintro ⟨a', same, rfl⟩
      obtain rfl := Except.ok.inj same
      rfl

end Outline
