import Mathlib.Logic.Basic

/-!
Computations that may fail: how a sequence of two succeeds, and how the outcome
of a closed one is read off a Boolean test.
-/

namespace Grvy.Lib

variable {ε : Type*} {α β : Type}

/-- A sequence of two computations succeeds only if both do. -/
theorem exists_of_bind_eq_ok {x : Except ε α} {f : α → Except ε β} {b : β}
    (h : (x >>= f) = .ok b) : ∃ a, x = .ok a ∧ f a = .ok b := by
  cases x with
  | error e => cases h
  | ok a => exact ⟨a, rfl, h⟩

/-- A computation whose outcome passes a test succeeds with a value that passes
it. -/
theorem exists_ok_of_any {x : Except ε α} {p : α → Bool} (h : x.toOption.any p = true) :
    ∃ a, x = .ok a ∧ p a = true := by
  cases x with
  | error e => cases h
  | ok a => exact ⟨a, rfl, h⟩

theorem exists_some_of_any {x : Option α} {p : α → Bool} (h : x.any p = true) :
    ∃ a, x = some a ∧ p a = true := by
  cases x with
  | none => cases h
  | some a => exact ⟨a, rfl, h⟩

theorem exists_error_of_any {x : Except ε α} {p : ε → Bool}
    (h : (match x with | .ok _ => false | .error e => p e) = true) :
    ∃ e, x = .error e ∧ p e = true := by
  cases x with
  | ok a => cases h
  | error e => exact ⟨e, rfl, h⟩

end Grvy.Lib
