import Mathlib.Data.List.TakeWhile

/-!
# Operations made of stages

An operation that writes several places is a list of stages, each with an effect
on one state. A crash after `k` stages leaves the effects of `l.take k`; an
exception at a stage leaves the effects of the stages before it. The rules below
say when such a prefix establishes a property, keeps it or changes nothing.
-/

namespace Hx.Library

universe u v

variable {σ : Type u} {ι : Type v}

/-- The effects of some stages, in order. -/
def runStages (effect : ι → σ → σ) (stages : List ι) (s : σ) : σ :=
  stages.foldl (fun s i => effect i s) s

/-- The stages that take effect when each stage that `raises` marks would raise. -/
def completed (raises : ι → Bool) (stages : List ι) : List ι :=
  stages.takeWhile fun i => !raises i

variable {effect : ι → σ → σ}

theorem runStages_append (first second : List ι) (s : σ) :
    runStages effect (first ++ second) s = runStages effect second (runStages effect first s) :=
  List.foldl_append

theorem runStages_keeps (P : σ → Prop) {stages : List ι}
    (keep : ∀ i ∈ stages, ∀ s, P s → P (effect i s)) {s : σ} (hs : P s) :
    P (runStages effect stages s) := by
  induction stages generalizing s with
  | nil => exact hs
  | cons i rest ih =>
      exact ih (fun j later => keep j (List.mem_cons_of_mem i later))
        (keep i List.mem_cons_self s hs)

/-- A property that one completed stage establishes and every stage keeps. -/
theorem runStages_establishes (P : σ → Prop) {stages : List ι} {i : ι} (done : i ∈ stages)
    (establish : ∀ s, P (effect i s)) (keep : ∀ j ∈ stages, ∀ s, P s → P (effect j s)) (s : σ) :
    P (runStages effect stages s) := by
  obtain ⟨before, after, rfl⟩ := List.append_of_mem done
  rw [runStages_append]
  have keepAfter : ∀ j ∈ after, ∀ s, P s → P (effect j s) := fun j later =>
    keep j (List.mem_append_right before (List.mem_cons_of_mem i later))
  exact runStages_keeps P keepAfter (establish _)

/-- What no completed stage changes is as it was. -/
theorem runStages_frame {β : Type*} (view : σ → β) {stages : List ι}
    (frame : ∀ i ∈ stages, ∀ s, view (effect i s) = view s) (s : σ) :
    view (runStages effect stages s) = view s := by
  induction stages generalizing s with
  | nil => rfl
  | cons i rest ih =>
      calc view (runStages effect rest (effect i s))
          = view (effect i s) := ih (fun j later => frame j (List.mem_cons_of_mem i later)) _
        _ = view s := frame i List.mem_cons_self s

end Hx.Library
