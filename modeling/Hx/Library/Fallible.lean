import Mathlib.Tactic.Basic

/-!
# Computations that may fail

A computation that gave a result passed all its steps; one that failed did so in one of them.
-/

namespace Hx.Library

universe u v

variable {ε : Type u} {α β : Type v} {x : Except ε α} {f : α → Except ε β} {b : β} {e : ε}

theorem of_bind_ok (ok : (x >>= f) = .ok b) : ∃ a, x = .ok a ∧ f a = .ok b := by
  cases x with
  | error e => cases ok
  | ok a => exact ⟨a, rfl, ok⟩

theorem of_bind_error (failed : (x >>= f) = .error e) :
    x = .error e ∨ ∃ a, x = .ok a ∧ f a = .error e := by
  cases x with
  | error e' =>
      cases failed
      exact .inl rfl
  | ok a => exact .inr ⟨a, rfl, failed⟩

/-- What becomes of a result does not change whether there is one. -/
theorem exists_ok_map (f : α → β) : (∃ b, x.map f = .ok b) ↔ ∃ a, x = .ok a := by
  constructor
  · rintro ⟨b, ok⟩
    cases x with
    | error e => cases ok
    | ok a => exact ⟨a, rfl⟩
  · rintro ⟨a, rfl⟩
    exact ⟨f a, rfl⟩

theorem exists_ok_ite {p : Prop} [Decidable p] (a : α) (e : ε) :
    (∃ b, (if p then Except.ok a else .error e) = .ok b) ↔ p := by
  split
  · exact iff_of_true ⟨a, rfl⟩ ‹p›
  · refine iff_of_false ?_ ‹¬ p›
    rintro ⟨b, ok⟩
    cases ok

/-- A loop whose steps do not fail. -/
theorem foldlM_eq_ok {σ : Type v} {α : Type u} {step : σ → α → Except ε σ} {next : σ → α → σ}
    {l : List α} (ok : ∀ a ∈ l, ∀ s, step s a = .ok (next s a)) (s : σ) :
    l.foldlM step s = .ok (l.foldl next s) := by
  induction l generalizing s with
  | nil => rfl
  | cons a l ih =>
      obtain ⟨first, others⟩ := List.forall_mem_cons.1 ok
      rw [List.foldlM_cons, first s]
      exact ih others (next s a)

end Hx.Library
