import Mathlib.Data.List.Basic
import Mathlib.Data.List.Induction

/-!
# The first of each

A list that takes up what it does not hold yet has each element once, in the order in which they
first came.
-/

namespace Hx.Library

variable {α : Type} [BEq α] [LawfulBEq α]

def addNew (out : List α) (a : α) : List α := if a ∈ out then out else out ++ [a]

/-- Each element once, where it first stands. -/
def firsts (xs : List α) : List α := xs.foldl addNew []

theorem mem_addNew {out : List α} {a b : α} : b ∈ addNew out a ↔ b ∈ out ∨ b = a := by
  unfold addNew
  split
  · rename_i held
    constructor
    · exact .inl
    · rintro (mem | rfl)
      · exact mem
      · exact held
  · rw [List.mem_append, List.mem_singleton]

theorem firsts_snoc (xs : List α) (a : α) : firsts (xs ++ [a]) = addNew (firsts xs) a := by
  rw [firsts, List.foldl_append]
  rfl

theorem mem_firsts {xs : List α} {b : α} : b ∈ firsts xs ↔ b ∈ xs := by
  induction xs using List.reverseRecOn with
  | nil => rfl
  | append_singleton xs a ih =>
      rw [firsts_snoc, mem_addNew, ih, List.mem_append, List.mem_singleton]

/-- They stand in the order in which they first came. -/
theorem firsts_pairwise (xs : List α) :
    (firsts xs).Pairwise fun a b => xs.idxOf a < xs.idxOf b := by
  induction xs using List.reverseRecOn with
  | nil => exact List.Pairwise.nil
  | append_singleton xs a ih =>
      have kept : (firsts xs).Pairwise fun b c => (xs ++ [a]).idxOf b < (xs ++ [a]).idxOf c := by
        refine List.Pairwise.imp_of_mem ?_ ih
        intro b c hb hc less
        rwa [List.idxOf_append_of_mem (mem_firsts.1 hb), List.idxOf_append_of_mem (mem_firsts.1 hc)]
      rw [firsts_snoc, addNew]
      split
      · exact kept
      · rename_i new
        refine List.pairwise_append.2 ⟨kept, List.pairwise_singleton _ _, ?_⟩
        intro b hb c hc
        obtain rfl := List.mem_singleton.1 hc
        have old := mem_firsts.1 hb
        rw [List.idxOf_append_of_mem old, List.idxOf_append_of_notMem (mt mem_firsts.2 new)]
        exact Nat.lt_of_lt_of_le (List.idxOf_lt_length_of_mem old) (Nat.le_add_right _ _)

end Hx.Library
