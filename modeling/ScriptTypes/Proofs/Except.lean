/-! Reading that may fail: what a sequence of two steps says about each of them. -/

namespace ScriptTypes

variable {ε α β : Type} {x : Except ε α} {f : α → Except ε β}

theorem ok_bind (a : α) (f : α → Except ε β) : (Except.ok a >>= f) = f a := rfl

theorem bind_eq_ok {b : β} (h : (x >>= f) = .ok b) : ∃ a, x = .ok a ∧ f a = .ok b := by
  cases x with
  | error e => cases h
  | ok a => exact ⟨a, rfl, h⟩

theorem bind_eq_error {e : ε} (h : (x >>= f) = .error e) : x = .error e ∨ ∃ a, x = .ok a ∧ f a = .error e := by
  cases x with
  | error e' =>
      cases h
      exact .inl rfl
  | ok a => exact .inr ⟨a, rfl, h⟩

/-- If the second step only builds a value, the error is that of the first. -/
theorem error_of_bind {g : α → β} {e : ε} (h : (x >>= fun a => .ok (g a)) = .error e) : x = .error e := by
  rcases bind_eq_error h with h | ⟨a, -, h⟩
  · exact h
  · cases h

end ScriptTypes
