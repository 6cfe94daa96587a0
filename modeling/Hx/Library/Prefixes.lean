import Mathlib.Data.List.Basic
import Mathlib.Data.List.Induction

/-!
# A property at every point of a run

A run is a list of actions, its points are its prefixes. Where one more action keeps a property
exactly under a condition on the run so far, the property holds at every point of a run exactly
if every action of it meets the condition where it is taken.
-/

namespace Hx.Library

variable {α : Type}

/-- Every action meets a condition on the run before it. -/
def EachStep (C : List α → α → Prop) (acts : List α) : Prop :=
  ∀ k a, acts[k]? = some a → C (acts.take k) a

theorem eachStep_append {C : List α → α → Prop} (acts : List α) (a : α) :
    EachStep C (acts ++ [a]) ↔ EachStep C acts ∧ C acts a := by
  constructor
  · intro all
    refine ⟨fun k b there => ?_, ?_⟩
    · have bound := (List.getElem?_eq_some_iff.1 there).1
      have own := all k b (by rwa [List.getElem?_append_left bound])
      rwa [List.take_append_of_le_length (Nat.le_of_lt bound)] at own
    · have own := all acts.length a (by simp)
      rwa [List.take_left] at own
  · rintro ⟨before, last⟩ k b there
    by_cases early : k < acts.length
    · rw [List.getElem?_append_left early] at there
      rw [List.take_append_of_le_length (Nat.le_of_lt early)]
      exact before k b there
    · rw [List.getElem?_append_right (Nat.not_lt.1 early), List.getElem?_singleton] at there
      split at there
      · rename_i zero
        have at_ : k = acts.length := by omega
        rw [at_, List.take_left, ← Option.some.inj there]
        exact last
      · contradiction

/-- The points of a run with one more action. -/
theorem forall_points_append {P : List α → Prop} (acts : List α) (a : α) :
    (∀ k ≤ (acts ++ [a]).length, P ((acts ++ [a]).take k)) ↔
      (∀ k ≤ acts.length, P (acts.take k)) ∧ P (acts ++ [a]) := by
  constructor
  · intro all
    refine ⟨fun k bound => ?_, ?_⟩
    · have own := all k (by rw [List.length_append]; omega)
      rwa [List.take_append_of_le_length bound] at own
    · have own := all _ (Nat.le_refl _)
      rwa [List.take_length] at own
  · rintro ⟨before, whole⟩ k bound
    by_cases early : k ≤ acts.length
    · rw [List.take_append_of_le_length early]
      exact before k early
    · have at_ : k = (acts ++ [a]).length := by
        rw [List.length_append, List.length_singleton] at bound ⊢
        omega
      rwa [at_, List.take_length]

/-- A property that one more action keeps exactly under a condition. -/
theorem forall_points_iff {P : List α → Prop} {C : List α → α → Prop} (base : P [])
    (step : ∀ acts a, P acts → (P (acts ++ [a]) ↔ C acts a)) (acts : List α) :
    (∀ k ≤ acts.length, P (acts.take k)) ↔ EachStep C acts := by
  induction acts using List.reverseRecOn with
  | nil =>
      refine iff_of_true (fun k _ => ?_) nofun
      rwa [List.take_nil]
  | append_singleton acts a ih =>
      rw [forall_points_append, eachStep_append, ← ih]
      refine and_congr_right fun before => step acts a ?_
      have own := before acts.length (Nat.le_refl _)
      rwa [List.take_length] at own

end Hx.Library
