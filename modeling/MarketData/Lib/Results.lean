import Mathlib.Data.List.Basic

/-!
# `Lib/Results.lean` — computations that succeeded

A computation that may fail is a chain of steps. From its success every step's success follows,
and the value it answered. `Ends` says what a computation answers and what it fails with at once,
and is carried over a chain step by step.

The rules here exist so that a proof about such a chain never unfolds it. `bind_eq_ok` takes a chain
apart at its first step, from the outcome; `Ends.bind` puts one together, from what is known of the
steps, with two predicates that together cover every outcome. The second is for a function whose
failures are part of what it promises, such as a parser that may fail with one error and no other.
-/

set_option autoImplicit false

namespace MarketData

variable {ε α β : Type}

/-- Peels a step off a computation that succeeded. -/
theorem bind_eq_ok {x : Except ε α} {f : α → Except ε β} {r : β} (h : (x >>= f) = .ok r) :
    ∃ a, x = .ok a ∧ f a = .ok r := by
  cases x with
  | error e => cases h
  | ok a => exact ⟨a, rfl, h⟩

/-- A computation fails at its first step or after it. -/
theorem bind_eq_error {x : Except ε α} {f : α → Except ε β} {e : ε} (h : (x >>= f) = .error e) :
    x = .error e ∨ ∃ a, x = .ok a ∧ f a = .error e := by
  cases x with
  | error e' => exact .inl (congrArg Except.error (Except.error.inj h))
  | ok a => exact .inr ⟨a, rfl, h⟩

theorem map_eq_error {x : Except ε α} {f : α → β} {e : ε} (h : x.map f = .error e) :
    x = .error e := by
  cases x with
  | error e' => exact congrArg Except.error (Except.error.inj h)
  | ok a => cases h

theorem map_eq_ok {x : Except ε α} {f : α → β} {r : β} (h : x.map f = .ok r) :
    ∃ a, x = .ok a ∧ f a = r := by
  cases x with
  | error e => cases h
  | ok a => exact ⟨a, rfl, Except.ok.inj h⟩

/-- What a computation answers has one property, and what it fails with another. -/
def Ends (good : α → Prop) (bad : ε → Prop) : Except ε α → Prop
  | .ok a => good a
  | .error e => bad e

namespace Ends

variable {good : α → Prop} {good' : β → Prop} {bad : ε → Prop} {x : Except ε α}

/-- **The rule of a chain.** -/
theorem bind {f : α → Except ε β} (h : Ends good bad x) (hf : ∀ a, good a → Ends good' bad (f a)) :
    Ends good' bad (x >>= f) := by
  cases x with
  | ok a => exact hf a h
  | error e => exact h

theorem map {f : α → β} (h : Ends good bad x) (hf : ∀ a, good a → good' (f a)) :
    Ends good' bad (x.map f) := by
  cases x with
  | ok a => exact hf a h
  | error e => exact h

/-- A computation that fails with nothing it can fail with answers. -/
theorem ok_of_not (h : Ends good bad x) (hno : ∀ e, x = .error e → ¬bad e) :
    ∃ a, x = .ok a ∧ good a := by
  cases x with
  | ok a => exact ⟨a, rfl, h⟩
  | error e => exact absurd h (hno e rfl)

end Ends

end MarketData
