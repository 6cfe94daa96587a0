import Mathlib.Data.Int.Order.Basic
import Mathlib.Data.List.TakeWhile

/-!
# Rolling windows

A window over a list that only grows, bounded by a count and by an age. On a list in the order
of its keys, the window after one more element is made from the window before it: nothing that
was let go comes back.
-/

namespace Hx.Library.Rolling

universe u

variable {α : Type u}

/-- The last `n` elements, or all there are. -/
def last (n : ℕ) (l : List α) : List α := l.drop (l.length - n)

/-- The elements whose key is not below the cutoff. -/
def young (key : α → ℤ) (cutoff : ℤ) (l : List α) : List α := l.filter fun a => cutoff ≤ key a

def Sorted (key : α → ℤ) (l : List α) : Prop := l.Pairwise fun a b => key a ≤ key b

variable {key : α → ℤ} {n : ℕ} {cutoff cutoff' : ℤ} {l old new : List α} {x : α}

theorem last_of_le (few : l.length ≤ n) : last n l = l := by
  rw [last, Nat.sub_eq_zero_of_le few, List.drop_zero]

theorem length_last_le : (last n l).length ≤ n := by
  rw [last, List.length_drop]
  omega

/-- What is at the end is let go last. -/
theorem last_append (few : new.length ≤ n) :
    last n (old ++ new) = last (n - new.length) old ++ new := by
  have cut : old.length + new.length - n = old.length - (n - new.length) := by omega
  rw [last, last, List.length_append, cut, List.drop_append_of_le_length (Nat.sub_le _ _)]

/-- More than `n` at the end are all that counts. -/
theorem last_append_of_le (many : n ≤ new.length) : last n (old ++ new) = last n new := by
  have cut : old.length + new.length - n = old.length + (new.length - n) := by omega
  rw [last, last, List.length_append, cut, List.drop_length_add_append]

theorem young_append :
    young key cutoff (old ++ new) = young key cutoff old ++ young key cutoff new :=
  List.filter_append _ _

theorem young_eq_nil (all : ∀ a ∈ l, key a < cutoff) : young key cutoff l = [] := by
  refine List.filter_eq_nil_iff.2 fun a mem within => ?_
  exact absurd (all a mem) (Int.not_lt.2 (of_decide_eq_true within))

/-- In the order of the keys, what is too old is at the front. -/
theorem Sorted.split (sorted : Sorted key l) (cutoff : ℤ) :
    ∃ front, l = front ++ young key cutoff l ∧ ∀ a ∈ front, key a < cutoff := by
  induction l with
  | nil => exact ⟨[], rfl, nofun⟩
  | cons a l ih =>
      obtain ⟨first, rest⟩ := List.pairwise_cons.1 sorted
      by_cases within : cutoff ≤ key a
      · refine ⟨[], ?_, nofun⟩
        have all : ∀ b ∈ a :: l, decide (cutoff ≤ key b) = true := by
          intro b mem
          obtain rfl | later := List.mem_cons.1 mem
          · exact decide_eq_true within
          · exact decide_eq_true (within.trans (first b later))
        rw [young, List.filter_eq_self.2 all, List.nil_append]
      · obtain ⟨front, whole, below⟩ := ih rest
        refine ⟨a :: front, ?_, List.forall_mem_cons.2 ⟨Int.not_le.1 within, below⟩⟩
        rw [young, List.filter_cons_of_neg (by simpa using within), List.cons_append]
        exact congrArg (a :: ·) whole

theorem Sorted.last (sorted : Sorted key l) (n : ℕ) : Sorted key (Rolling.last n l) :=
  List.Pairwise.drop sorted

/-- The window after one more element, from the window before it. -/
theorem young_last_step (sorted : Sorted key l) (later : cutoff ≤ cutoff') :
    young key cutoff' (last n (young key cutoff (last n l) ++ [x])) =
      young key cutoff' (last n (l ++ [x])) := by
  obtain ⟨front, whole, below⟩ := (sorted.last n).split cutoff
  have fits : (last n l).length ≤ n := length_last_le
  have rest : last n (l ++ [x]) = last n (last n l ++ [x]) := by
    by_cases few : l.length ≤ n
    · rw [last_of_le few]
    · have count : (last n l).length = n := by
        rw [last, List.length_drop]
        omega
      have cut : l = l.take (l.length - n) ++ last n l := (List.take_append_drop _ l).symm
      have many : n ≤ (last n l ++ [x]).length := by
        rw [List.length_append, count]
        exact Nat.le_add_right _ _
      conv_lhs => rw [cut, List.append_assoc]
      exact last_append_of_le many
  rw [rest]
  generalize young key cutoff (last n l) = kept at whole
  rw [whole] at fits ⊢
  cases front with
  | nil => rfl
  | cons a front =>
      have few : (kept ++ [x]).length ≤ n := by
        simp only [List.length_append, List.length_cons, List.length_nil] at fits ⊢
        omega
      have gone : young key cutoff' (last (n - (kept ++ [x]).length) (a :: front)) = [] :=
        young_eq_nil fun b mem => (below b (List.mem_of_mem_drop mem)).trans_le later
      have all : young key cutoff' (last (n - (kept ++ [x]).length) (a :: front) ++ (kept ++ [x])) =
          young key cutoff' (kept ++ [x]) := by
        rw [young_append, gone, List.nil_append]
      rw [List.append_assoc, last_append few, last_of_le few, all]

end Hx.Library.Rolling
