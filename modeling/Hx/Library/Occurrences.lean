import Mathlib.Data.List.Basic
import Mathlib.Data.List.Infix
import Mathlib.Data.List.Pairwise

/-!
# Occurrences of a needle, from left to right

A search that goes on behind each place it finds comes to places that do not overlap, and passes
over none but those a place already found reaches into. There is one such list of places.
-/

namespace Hx.Library

variable {α : Type}

/-- The needle stands at a place. -/
def Stands (needle hay : List α) (i : ℕ) : Prop := needle <+: hay.drop i

section Search

variable [DecidableEq α]

/-- The first place from `start` on. -/
def findFrom (needle hay : List α) (start : ℕ) : Option ℕ :=
  (List.range' start (hay.length + 1 - start)).find? fun i => needle.isPrefixOf (hay.drop i)

/-- The places a search finds that goes on behind each of them. -/
def places (needle hay : List α) : ℕ → Option ℕ → List ℕ
  | 0, _ => []
  | _ + 1, none => []
  | fuel + 1, some i => i :: places needle hay fuel (findFrom needle hay (i + needle.length))

end Search

/-- The places from `start` on, none of which reaches into another, and each other place is
reached into by one before it. -/
structure LeftToRight (needle hay : List α) (start : ℕ) (l : List ℕ) : Prop where
  stands : ∀ i ∈ l, start ≤ i ∧ Stands needle hay i
  apart : l.Pairwise fun i j => i + needle.length ≤ j
  reached : ∀ j, start ≤ j → Stands needle hay j → ∃ i ∈ l, i ≤ j ∧ j < i + needle.length

variable {needle hay : List α} {start i j : ℕ}

theorem Stands.bound (stands : Stands needle hay i) (some_ : needle ≠ []) :
    i + needle.length ≤ hay.length := by
  have short := stands.length_le
  have positive := List.length_pos_iff.2 some_
  rw [List.length_drop] at short
  omega

/-! ## There is one such list -/

/-- What is behind the first place goes from left to right behind it. -/
theorem LeftToRight.tail {l : List ℕ} (all : LeftToRight needle hay start (i :: l)) :
    LeftToRight needle hay (i + needle.length) l := by
  obtain ⟨later, apart⟩ := List.pairwise_cons.1 all.apart
  refine ⟨fun j mem => ⟨later j mem, (all.stands j (List.mem_cons_of_mem _ mem)).2⟩, apart, ?_⟩
  intro j low stands
  have first := (all.stands i List.mem_cons_self).1
  obtain ⟨k, mem, reach⟩ := all.reached j (first.trans ((Nat.le_add_right _ _).trans low)) stands
  obtain rfl | mem := List.mem_cons.1 mem
  · exact absurd reach.2 (Nat.not_lt.2 low)
  · exact ⟨k, mem, reach⟩

theorem LeftToRight.head_le {l : List ℕ} (all : LeftToRight needle hay start (i :: l))
    (low : start ≤ j) (stands : Stands needle hay j) : i ≤ j := by
  obtain ⟨k, mem, reach⟩ := all.reached j low stands
  obtain rfl | mem := List.mem_cons.1 mem
  · exact reach.1
  · have later := (List.pairwise_cons.1 all.apart).1 k mem
    omega

theorem LeftToRight.unique : ∀ {l m : List ℕ} {start : ℕ}, LeftToRight needle hay start l →
    LeftToRight needle hay start m → l = m
  | [], [], _, _, _ => rfl
  | [], j :: m, _, first, second => by
      obtain ⟨low, stands⟩ := second.stands j List.mem_cons_self
      obtain ⟨k, mem, -⟩ := first.reached j low stands
      contradiction
  | i :: l, [], _, first, second => by
      obtain ⟨low, stands⟩ := first.stands i List.mem_cons_self
      obtain ⟨k, mem, -⟩ := second.reached i low stands
      contradiction
  | i :: l, j :: m, _, first, second => by
      obtain ⟨low, stands⟩ := first.stands i List.mem_cons_self
      obtain ⟨low', stands'⟩ := second.stands j List.mem_cons_self
      obtain rfl : i = j :=
        Nat.le_antisymm (first.head_le low' stands') (second.head_le low stands)
      rw [first.tail.unique second.tail]

/-! ## The search -/

variable [DecidableEq α]

theorem findFrom_some (found : findFrom needle hay start = some i) :
    start ≤ i ∧ Stands needle hay i ∧ ∀ j, start ≤ j → j < i → ¬ Stands needle hay j := by
  obtain ⟨here, mem, earlier⟩ := List.find?_range'_eq_some.1 found
  refine ⟨(List.mem_range'_1.1 mem).1, List.isPrefixOf_iff_prefix.1 here, ?_⟩
  intro j low high stands
  have none_ := earlier j low high
  rw [List.isPrefixOf_iff_prefix.2 stands] at none_
  contradiction

theorem findFrom_none (found : findFrom needle hay start = none) (some_ : needle ≠ [])
    (low : start ≤ j) : ¬ Stands needle hay j := by
  intro stands
  have bound := stands.bound some_
  have positive := List.length_pos_iff.2 some_
  refine List.find?_eq_none.1 found j (List.mem_range'_1.2 ⟨low, ?_⟩)
    (List.isPrefixOf_iff_prefix.2 stands)
  omega

/-- A search with fuel for each place that is left goes from left to right. -/
theorem places_leftToRight (some_ : needle ≠ []) : ∀ (fuel : ℕ) {start : ℕ},
    hay.length < start + fuel →
      LeftToRight needle hay start (places needle hay fuel (findFrom needle hay start))
  | 0, start, enough => by
      refine ⟨fun i mem => absurd mem List.not_mem_nil, List.Pairwise.nil, fun j low stands => ?_⟩
      have bound := stands.bound some_
      omega
  | fuel + 1, start, enough => by
      have positive := List.length_pos_iff.2 some_
      cases found : findFrom needle hay start with
      | none =>
          exact ⟨fun i mem => absurd mem List.not_mem_nil, List.Pairwise.nil,
            fun j low stands => absurd stands (findFrom_none found some_ low)⟩
      | some i =>
          obtain ⟨low, here, earlier⟩ := findFrom_some found
          have rest : LeftToRight needle hay (i + needle.length)
              (places needle hay fuel (findFrom needle hay (i + needle.length))) :=
            places_leftToRight some_ fuel (by omega)
          refine ⟨?_, ?_, ?_⟩
          · intro j mem
            obtain rfl | mem := List.mem_cons.1 mem
            · exact ⟨low, here⟩
            · exact ⟨low.trans ((Nat.le_add_right _ _).trans (rest.stands j mem).1),
                (rest.stands j mem).2⟩
          · exact List.pairwise_cons.2 ⟨fun j mem => (rest.stands j mem).1, rest.apart⟩
          · intro j within stands
            by_cases behind : i + needle.length ≤ j
            · obtain ⟨k, mem, reach⟩ := rest.reached j behind stands
              exact ⟨k, List.mem_cons_of_mem _ mem, reach⟩
            · refine ⟨i, List.mem_cons_self, ?_, Nat.not_le.1 behind⟩
              exact Nat.not_lt.1 fun before => earlier j within before stands

end Hx.Library
