import Mathlib.Data.List.Basic

/-!
# Codes that say where they end

A word is written code by code. Where a reader finds the code at the front of whatever follows it,
the word is read back, so no two words are written alike.
-/

namespace Hx.Library

universe u v

variable {α : Type u} {β : Type v} {code : α → List β} {first : List β → Option (α × List β)}

/-- `first` finds the code at the front, whatever follows, and no code is empty. -/
structure Reads (code : α → List β) (first : List β → Option (α × List β)) : Prop where
  front : ∀ a rest, first (code a ++ rest) = some (a, rest)
  some_ : ∀ a, code a ≠ []

/-- Letter by letter, so many at most. -/
def readLetters (first : List β → Option (α × List β)) : ℕ → List β → Option (List α)
  | _, [] => some []
  | 0, _ :: _ => none
  | n + 1, x :: s =>
      (first (x :: s)).bind fun found => (readLetters first n found.2).map (found.1 :: ·)

/-- The word that is written; no word has more letters than its text. -/
def readWord (first : List β → Option (α × List β)) (s : List β) : Option (List α) :=
  readLetters first s.length s

theorem Reads.readLetters (reads : Reads code first) (w : List α) {n : ℕ} (enough : w.length ≤ n) :
    readLetters first n (w.flatMap code) = some w := by
  induction w generalizing n with
  | nil =>
      rw [List.flatMap_nil]
      unfold Library.readLetters
      rfl
  | cons a w ih =>
      rw [List.length_cons] at enough
      obtain ⟨n, rfl⟩ : ∃ m, n = m + 1 := ⟨n - 1, by omega⟩
      obtain ⟨x, s, whole⟩ := List.exists_cons_of_ne_nil
        (List.append_ne_nil_of_left_ne_nil (reads.some_ a) (w.flatMap code))
      rw [List.flatMap_cons, whole, Library.readLetters, ← whole, reads.front, Option.bind_some,
        ih (by omega)]
      rfl

theorem Reads.length_le (reads : Reads code first) (w : List α) :
    w.length ≤ (w.flatMap code).length := by
  induction w with
  | nil => exact Nat.zero_le _
  | cons a w ih =>
      have positive := List.length_pos_of_ne_nil (reads.some_ a)
      rw [List.flatMap_cons, List.length_append, List.length_cons]
      omega

/-- What is written is read. -/
theorem Reads.readWord (reads : Reads code first) (w : List α) :
    readWord first (w.flatMap code) = some w :=
  reads.readLetters w (reads.length_le w)

end Hx.Library
