import Hx.Policy.Closure

/-!
# The reading sets are least fixed points

The worklists end, no member is longer than what it was read from, and a set holds what its
start derives and nothing else. A path's own spelling is where its set starts. A query's is
not in its set: the set starts from what the spelling derives, which is more than its case
fold and what follows from that, since the case fold can take away a byte sequence that reads
as UTF-8.
-/

namespace Hx.Policy

open Hx.Java Hx.Library

variable {U : CaseMap} {path query : JString}

/-- The least set that holds the seeds and is closed under `derive`. -/
structure IsClosure {α : Type} (derive : α → List α) (seeds out : List α) : Prop where
  seeded : ∀ x ∈ seeds, x ∈ out
  closed : ∀ x ∈ out, ∀ y ∈ derive x, y ∈ out
  least : ∀ S : Set α, (∀ x ∈ seeds, x ∈ S) → (∀ x ∈ S, ∀ y ∈ derive x, y ∈ S) →
    ∀ x ∈ out, x ∈ S

/-- The closure of a member is within the closure. -/
theorem IsClosure.subset {α : Type} {derive : α → List α} {seeds out seeds' out' : List α}
    (whole : IsClosure derive seeds out) (part : IsClosure derive seeds' out')
    (inside : ∀ x ∈ seeds', x ∈ out) : out' ⊆ out :=
  fun x mem => part.least { x | x ∈ out } inside whole.closed x mem

/-- A loop that ends with nothing pending, and with this collection. -/
def EndsWith (derive : JString → List JString) (start : Worklist JString) (out : List JString) :
    Prop :=
  ∃ n, ((Worklist.expand none derive)^[n] start).pending = [] ∧
    ((Worklist.expand none derive)^[n] start).out = out

theorem readings_isClosure (path : JString) : IsClosure (derive U) [path] (readings U path none) where
  seeded := by
    intro x mem
    rw [List.mem_singleton.1 mem]
    exact mem_readings_self
  closed x mem _ derived := readings_closed rfl mem derived
  least := by
    intro S seeds closed
    have start : path ∈ S := seeds path (List.mem_singleton_self path)
    refine Worklist.mem_run_of_closed ?_ ?_ closed
    · intro x mem
      rw [List.mem_singleton.1 mem]
      exact start
    · intro x mem
      rw [List.mem_singleton.1 mem]
      exact closed path start

theorem queryReadings_isClosure (query : JString) :
    IsClosure (deriveQuery U) (deriveQuery U query) (queryReadings U query none) where
  seeded _ derived := queryReadings_closed rfl (.inr rfl) derived
  closed x mem _ derived := queryReadings_closed rfl (.inl mem) derived
  least := by
    intro S seeds closed
    refine Worklist.mem_run_of_closed nofun ?_ closed
    intro x mem
    rw [List.mem_singleton.1 mem]
    exact seeds

theorem length_readings_le {r : JString} (mem : r ∈ readings U path none) :
    r.length ≤ path.length :=
  (readings_isClosure path).least { r | r.length ≤ path.length }
    (fun _ seed => (List.mem_singleton.1 seed).symm ▸ Nat.le_refl _)
    (fun _ short _ derived => (length_derive_le derived).trans short) r mem

theorem length_queryReadings_le {r : JString} (mem : r ∈ queryReadings U query none) :
    r.length ≤ query.length :=
  (queryReadings_isClosure query).least { r | r.length ≤ query.length }
    (fun _ derived => length_deriveQuery_le derived)
    (fun _ short _ derived => (length_deriveQuery_le derived).trans short) r mem

theorem readings_end (path : JString) :
    EndsWith (derive U) ⟨[path], [path]⟩ (readings U path none) := by
  refine ⟨readingFuel path.length, ?_, ?_⟩
  · exact Worklist.pending_of_enough (bounded_derive path)
      (Nat.le_succ_of_le (card_stringsUpTo_lt path.length))
  · exact Worklist.run_eq_iterate.symm

theorem queryReadings_end (query : JString) :
    EndsWith (deriveQuery U) ⟨[], [query]⟩ (queryReadings U query none) := by
  refine ⟨readingFuel query.length, ?_, ?_⟩
  · exact Worklist.pending_of_enough (bounded_deriveQuery query)
      (card_stringsUpTo_lt query.length)
  · exact Worklist.run_eq_iterate.symm

/-- The two worklists end, lengthen nothing, and end with least closures: of the path, and of
what the query derives, its case fold among it. A member's closure is within its set's. -/
theorem readings_least (U : CaseMap) (s : JString) :
    (EndsWith (derive U) ⟨[s], [s]⟩ (readings U s none) ∧
      (∀ r ∈ readings U s none, r.length ≤ s.length) ∧
      IsClosure (derive U) [s] (readings U s none) ∧
      ∀ r ∈ readings U s none, readings U r none ⊆ readings U s none) ∧
    EndsWith (deriveQuery U) ⟨[], [s]⟩ (queryReadings U s none) ∧
      (∀ r ∈ queryReadings U s none, r.length ≤ s.length) ∧
      IsClosure (deriveQuery U) (deriveQuery U s) (queryReadings U s none) ∧
      lower U s ∈ queryReadings U s none ∧
      ∀ r ∈ queryReadings U s none, queryReadings U r none ⊆ queryReadings U s none := by
  have paths := readings_isClosure (U := U) s
  have queries := queryReadings_isClosure (U := U) s
  refine ⟨⟨readings_end s, fun _ => length_readings_le, paths, fun r mem => ?_⟩,
    queryReadings_end s, fun _ => length_queryReadings_le, queries, lower_mem_queryReadings,
    fun r mem => ?_⟩
  · refine paths.subset (readings_isClosure r) fun x seed => ?_
    rw [List.mem_singleton.1 seed]
    exact mem
  · exact queries.subset (queryReadings_isClosure r) (queries.closed r mem)

/-! ## The case fold is no seed -/

/-- `basicLower`, and the capitals of Latin-1. -/
def latinLower (n : Nat) : Nat :=
  if 0xc0 ≤ n ∧ n ≤ 0xde ∧ n ≠ 0xd7 then n + 0x20 else basicLower n

theorem latinLower_lt (c : Fin 0x110000) : latinLower c.val < 0x110000 := by
  unfold latinLower basicLower lowerAscii
  split_ifs <;> omega

theorem latinLower_plane (c : Fin 0x110000) : latinLower c.val / 0x10000 = c.val / 0x10000 := by
  simp only [latinLower, basicLower, lowerAscii]
  split_ifs <;> omega

theorem latinLower_idempotent (c : Fin 0x110000) :
    latinLower (latinLower c.val) = latinLower c.val := by
  simp only [latinLower, basicLower, lowerAscii]
  split_ifs <;> omega

theorem latinLower_ascii (c : Fin 0x110000) (small : c.val < 0x80) :
    latinLower c.val = lowerAscii c.val := by
  simp only [latinLower, basicLower]
  split_ifs <;> omega

theorem latinLower_letters (c : Fin 0x110000) (large : 0x80 ≤ c.val)
    (low : latinLower c.val < 0x80) : 0x61 ≤ latinLower c.val ∧ latinLower c.val ≤ 0x7a := by
  revert low
  simp only [latinLower, basicLower, lowerAscii]
  split_ifs <;> omega

def latinCase : CaseMap where
  toLowerCase c := ⟨latinLower c.val, latinLower_lt c⟩
  plane := latinLower_plane
  idempotent c := Fin.ext (latinLower_idempotent c)
  ascii := latinLower_ascii
  letters := latinLower_letters

/-- The two bytes of an `é` read as UTF-8; with the first one case folded they do not. -/
theorem case_fold_is_no_seed : ¬ ∀ (U : CaseMap) (query : JString),
    IsClosure (deriveQuery U) [lower U query] (queryReadings U query none) := by
  intro h
  have least := (h latinCase [0xc3, 0xa9]).least { s | s = [0xe3, 0xa9] }
  have seed : lower latinCase [0xc3, 0xa9] = [0xe3, 0xa9] := by decide
  have stays : ∀ y ∈ deriveQuery latinCase [0xe3, 0xa9], y = [0xe3, 0xa9] := by decide
  have read : ([0xe9] : JString) ∈ queryReadings latinCase [0xc3, 0xa9] none :=
    queryReadings_closed rfl (.inr rfl) (by decide)
  have same : ([0xe9] : JString) = [0xe3, 0xa9] := by
    refine least ?_ ?_ _ read
    · intro x mem
      rw [List.mem_singleton.1 mem]
      exact seed
    · rintro x rfl
      exact stays
  exact absurd same (by decide)

end Hx.Policy
