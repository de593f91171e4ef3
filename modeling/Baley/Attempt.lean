/-!
# Attempts

A computation that reads and writes a state and may fail.  What a successful attempt did is read off
its steps one at a time, and what every step keeps, the attempt keeps.
-/

/-- A computation over a state `σ` that may fail with an error `ε`. -/
abbrev Attempt (σ ε α : Type) := StateT σ (Except ε) α

/-- A computation that may fail, seen as an attempt that leaves the state alone. -/
def Except.attempt {σ ε α : Type} (result : Except ε α) : Attempt σ ε α :=
  fun state => result.map fun value => (value, state)

namespace Except

variable {ε α β : Type}

theorem bind_eq_ok {result : Except ε α} {next : α → Except ε β} {value : β} :
    (result >>= next) = .ok value ↔ ∃ first, result = .ok first ∧ next first = .ok value := by
  cases result with
  | error error => simp [bind, Except.bind]
  | ok first => simp [bind, Except.bind]

theorem map_eq_ok {result : Except ε α} {change : α → β} {value : β} :
    result.map change = .ok value ↔ ∃ first, result = .ok first ∧ change first = value := by
  cases result <;> simp [Except.map]

theorem mapError_eq_ok {ε' : Type} {result : Except ε α} {change : ε → ε'} {value : α} :
    result.mapError change = .ok value ↔ result = .ok value := by
  cases result with
  | error error =>
      constructor
      · intro same
        cases same
      · intro same
        cases same
  | ok first =>
      change Except.ok first = .ok value ↔ _
      rw [Except.ok.injEq, Except.ok.injEq]

/-- Refuse with an error where a condition fails. -/
def require (condition : Prop) [Decidable condition] (error : ε) : Except ε Unit :=
  if condition then .ok () else .error error

@[simp]
theorem require_eq_ok {condition : Prop} [Decidable condition] {error : ε} {done : Unit} :
    require condition error = .ok done ↔ condition := by
  unfold require
  split <;> simp_all

/-- The value of an option, or an error where it has none. -/
def ofOption (error : ε) : Option α → Except ε α
  | some value => .ok value
  | none => .error error

@[simp]
theorem ofOption_eq_ok {error : ε} {option : Option α} {value : α} :
    ofOption error option = .ok value ↔ option = some value := by
  cases option <;> simp [ofOption]

end Except

namespace Attempt

variable {σ ε α β : Type} {state state' : σ}

theorem bind_eq_ok {first : Attempt σ ε α} {next : α → Attempt σ ε β} {value : β} :
    (first >>= next) state = .ok (value, state') ↔
      ∃ result middle, first state = .ok (result, middle) ∧
        next result middle = .ok (value, state') := by
  simp only [bind, StateT.bind]
  cases first state with
  | error error => simp [Except.bind]
  | ok pair =>
      obtain ⟨result, middle⟩ := pair
      constructor
      · intro next_eq
        exact ⟨result, middle, rfl, next_eq⟩
      · rintro ⟨result', middle', pair_eq, next_eq⟩
        cases pair_eq
        exact next_eq

@[simp]
theorem pure_eq_ok {value value' : α} :
    (pure value : Attempt σ ε α) state = .ok (value', state') ↔
      value = value' ∧ state = state' := by
  change Except.ok (value, state) = .ok (value', state') ↔ _
  rw [Except.ok.injEq, Prod.mk.injEq]

@[simp]
theorem attempt_eq_ok {result : Except ε α} {value : α} :
    result.attempt state = .ok (value, state') ↔ result = .ok value ∧ state = state' := by
  cases result <;> simp [Except.attempt, Except.map]

@[simp]
theorem get_eq_ok {read : σ} :
    (get : Attempt σ ε σ) state = .ok (read, state') ↔ state = read ∧ state = state' := by
  simp [get, getThe, MonadStateOf.get, StateT.get, pure, Except.pure]

@[simp]
theorem modify_eq_ok {change : σ → σ} {done : PUnit} :
    (modify change : Attempt σ ε PUnit) state = .ok (done, state') ↔ change state = state' := by
  change Except.ok (PUnit.unit, change state) = .ok (done, state') ↔ _
  simp

/-- What holds before the attempt holds after it, when it succeeds. -/
def Keeps (holds : σ → Prop) (attempt : Attempt σ ε α) : Prop :=
  ∀ before value after, holds before → attempt before = .ok (value, after) → holds after

variable {holds : σ → Prop}

theorem Keeps.pure (value : α) : Keeps holds (Pure.pure value : Attempt σ ε α) := by
  intro before value' after before_holds succeeded
  obtain ⟨rfl, rfl⟩ := pure_eq_ok.mp succeeded
  exact before_holds

theorem Keeps.attempt (result : Except ε α) :
    Keeps holds (result.attempt : Attempt σ ε α) := by
  intro before value after before_holds succeeded
  obtain ⟨-, rfl⟩ := attempt_eq_ok.mp succeeded
  exact before_holds

theorem Keeps.get : Keeps holds (MonadState.get : Attempt σ ε σ) := by
  intro before value after before_holds succeeded
  obtain ⟨-, rfl⟩ := get_eq_ok.mp succeeded
  exact before_holds

theorem Keeps.bind {first : Attempt σ ε α} {next : α → Attempt σ ε β}
    (first_keeps : Keeps holds first)
    (next_keeps : ∀ result before after, first before = .ok (result, after) →
      Keeps holds (next result)) : Keeps holds (first >>= next) := by
  intro before value after before_holds succeeded
  obtain ⟨result, middle, first_eq, next_eq⟩ := bind_eq_ok.mp succeeded
  exact next_keeps _ _ _ first_eq _ _ _ (first_keeps _ _ _ before_holds first_eq) next_eq

theorem Keeps.map {attempt : Attempt σ ε α} (keeps : Keeps holds attempt) (change : α → β) :
    Keeps holds (change <$> attempt) := by
  rw [← bind_pure_comp]
  exact keeps.bind fun _ _ _ _ => .pure _

/-- What holds after the attempt from this state, when it succeeds. -/
def Ends (holds : σ → Prop) (attempt : Attempt σ ε α) (before : σ) : Prop :=
  ∀ value after, attempt before = .ok (value, after) → holds after

/-- What the first attempt ends in and the next one keeps. -/
theorem Ends.bind {first : Attempt σ ε α} {next : α → Attempt σ ε β} {before : σ}
    (first_ends : Ends holds first before)
    (next_keeps : ∀ result after, first before = .ok (result, after) → Keeps holds (next result)) :
    Ends holds (first >>= next) before := by
  intro value after succeeded
  obtain ⟨result, middle, first_eq, next_eq⟩ := bind_eq_ok.mp succeeded
  exact next_keeps _ _ first_eq _ _ _ (first_ends _ _ first_eq) next_eq

/-- What the next attempt ends in, wherever the first one led. -/
theorem Ends.after {first : Attempt σ ε α} {next : α → Attempt σ ε β} {before : σ}
    (next_ends : ∀ result middle, first before = .ok (result, middle) →
      Ends holds (next result) middle) : Ends holds (first >>= next) before := by
  intro value after succeeded
  obtain ⟨result, middle, first_eq, next_eq⟩ := bind_eq_ok.mp succeeded
  exact next_ends _ _ first_eq _ _ next_eq

end Attempt
