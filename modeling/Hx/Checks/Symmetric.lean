import Hx.Checks.Active

/-!
# The pair compared the other way round

`sql_behaviour` compares its two probes by `delta.against`, which was written for a baseline
and a probe: status and length are two-sided, the tokens are looked for on one side only. So
the comparison depends on which of the two probes drew which answer exactly where one body has
all the tokens of the other, and more.
-/

namespace Hx.Checks.SqlBehaviour

open Hx.Python

/-- The unbalanced quote drew `quoted`, the escaped one `escaped`, and the check sees a
difference. -/
def sees (quoted escaped : Response) : Bool :=
  (material (against escaped.status escaped.body quoted.status quoted.body)).isSome

/-- Neither the statuses tell two answers apart nor their lengths. -/
def Near (r r' : Response) : Prop :=
  r.status = r'.status ∧ ((r.body.length : Int) - r'.body.length).natAbs < minLenDelta

/-- The text of one answer is in the other. -/
def Within (r r' : Response) : Prop := ∀ t ∈ tokens r.body, t ∈ tokens r'.body

/-- The comparison does not depend on the order, and sees nothing only in answers that have
the same tokens. -/
structure TwoSided (r r' : Response) : Prop where
  symmetric : sees r r' = sees r' r
  alike : sees r r' = false →
    Near r r' ∧ ∀ t, t ∈ tokens r.body ↔ t ∈ tokens r'.body

/-- One answer has the tokens of the other and more, and nothing else tells them apart. -/
def OneSided (r r' : Response) : Prop :=
  Near r r' ∧ (Within r r' ∧ ¬ Within r' r ∨ Within r' r ∧ ¬ Within r r')

theorem Near.symm {r r' : Response} (near : Near r r') : Near r' r := by
  refine ⟨near.1.symm, ?_⟩
  have short := near.2
  omega

theorem fresh_eq_nil {seen l : List Bytes} : fresh seen l = [] ↔ ∀ t ∈ l, t ∈ seen := by
  induction l generalizing seen with
  | nil => exact iff_of_true rfl fun t mem => absurd mem List.not_mem_nil
  | cons t rest ih =>
      rw [fresh]
      split
      · rename_i known
        rw [ih, List.forall_mem_cons]
        exact ⟨fun all => ⟨known, all⟩, fun all => all.2⟩
      · rename_i new
        exact iff_of_false (List.cons_ne_nil _ _) fun all => new (all t List.mem_cons_self)

section Small

variable {r r' : Response}

/-- Nothing is seen where the first answer is near the second and says nothing new. -/
theorem sees_eq_false (small : r.body.length ≤ maxDiffBytes)
    (small' : r'.body.length ≤ maxDiffBytes) :
    sees r r' = false ↔ Near r r' ∧ Within r r' := by
  have compared : ¬ (maxDiffBytes < r.body.length ∨ maxDiffBytes < r'.body.length) := by
    omega
  rw [sees, against, if_neg compared, material, Near, and_assoc]
  dsimp only
  by_cases same : r'.status = r.status
  · rw [if_neg (by simpa using same), and_iff_right same.symm]
    by_cases long : minLenDelta ≤ ((r.body.length : Int) - r'.body.length).natAbs
    · rw [if_pos long]
      exact iff_of_false (by simp) fun h => absurd h.1 (Nat.not_lt.2 long)
    · rw [if_neg long, and_iff_right (Nat.not_le.1 long), Within, ← fresh_eq_nil]
      cases fresh (tokens r'.body) (tokens r.body) with
      | nil => exact iff_of_true rfl rfl
      | cons t rest => exact iff_of_false (by simp [maxTokens]) (List.cons_ne_nil _ _)
  · rw [if_pos (by simpa using same)]
    exact iff_of_false (by simp) fun h => same h.1.symm

end Small

/-- An empty answer. -/
def silent : Response := ⟨some 200, [], []⟩

/-- The same answer with one token in it. -/
def telling : Response := ⟨some 200, [], [115, 101, 99, 114, 101, 116]⟩

end Hx.Checks.SqlBehaviour
