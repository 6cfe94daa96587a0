import Mathlib.Data.List.Basic
import Mathlib.Data.List.Nodup

/-!
# Values gathered under keys

A mapping from keys to lists of values is written as one line a value, with its key before a
separator, and gathered again line by line. What is gathered is the mapping without the keys
that have no value: such a key is on no line.
-/

namespace Hx.Library

universe u v w

section Entries

variable {α : Type u} {β : Type v} {σ : Type w}

/-- One entry a value. -/
def entries (pairs : List (α × List β)) : List (α × β) :=
  pairs.flatMap fun p => p.2.map fun value => (p.1, value)

/-- The pairs of a mapping that have a value. -/
def valued (pairs : List (α × List β)) : List (α × List β) := pairs.filter fun p => !p.2.isEmpty

/-- `add` puts a value under a new key behind the others, and behind the values of the key that
came last. -/
structure Gathers (pairs : σ → List (α × List β)) (add : σ → α → β → σ) : Prop where
  fresh : ∀ s key value, key ∉ (pairs s).map Prod.fst →
    pairs (add s key value) = pairs s ++ [(key, [value])]
  again : ∀ s key value front values, pairs s = front ++ [(key, values)] →
    key ∉ front.map Prod.fst → pairs (add s key value) = front ++ [(key, values ++ [value])]

variable {pairs : σ → List (α × List β)} {add : σ → α → β → σ}

theorem Gathers.values (h : Gathers pairs add) {key : α} {front : List (α × List β)}
    (more values : List β) {s : σ} (last : pairs s = front ++ [(key, values)])
    (apart : key ∉ front.map Prod.fst) :
    pairs ((more.map fun value => (key, value)).foldl (fun s e => add s e.1 e.2) s) =
      front ++ [(key, values ++ more)] := by
  induction more generalizing s values with
  | nil =>
      rw [List.append_nil]
      exact last
  | cons value more ih =>
      have next := h.again s key value front values last apart
      refine (ih (values ++ [value]) next).trans ?_
      rw [List.append_assoc, List.singleton_append]

/-- The entries of a mapping gather to the mapping, less the keys without a value. -/
theorem Gathers.entries (h : Gathers pairs add) {l : List (α × List β)} {s : σ}
    (unique : ((pairs s ++ l).map Prod.fst).Nodup) :
    pairs ((Library.entries l).foldl (fun s e => add s e.1 e.2) s) = pairs s ++ valued l := by
  induction l generalizing s with
  | nil => exact (List.append_nil _).symm
  | cons p l ih =>
      obtain ⟨key, values⟩ := p
      have whole : Library.entries ((key, values) :: l) =
          (values.map fun value => (key, value)) ++ Library.entries l := List.flatMap_cons
      rw [whole, List.foldl_append]
      cases values with
      | nil =>
          refine ih (List.Nodup.sublist ?_ unique)
          exact ((List.sublist_cons_self _ _).append_left _).map _
      | cons value values =>
          have apart : key ∉ (pairs s).map Prod.fst := by
            rw [List.map_append, List.nodup_append] at unique
            exact fun mem => unique.2.2 _ mem _ List.mem_cons_self rfl
          have gathered := h.values values [value] (h.fresh s key value apart) apart
          refine (ih ?_).trans ?_
          · rw [List.map_cons, List.foldl_cons, gathered, List.append_assoc]
            exact unique
          · rw [List.map_cons, List.foldl_cons, gathered, List.append_assoc]
            rfl

end Entries

/-! ## Lines -/

section Lines

variable {γ : Type u} {tab newline : γ} {e : List γ × List γ} {es : List (List γ × List γ)}

/-- A key and a value on one line. -/
def entryLine (tab : γ) (e : List γ × List γ) : List γ := e.1 ++ tab :: e.2

/-- The lines of some entries, each with its end. -/
def entryLines (tab newline : γ) (es : List (List γ × List γ)) : List γ :=
  es.flatMap fun e => entryLine tab e ++ [newline]

theorem drop_entryLine : (entryLine tab e).drop (e.1.length + 1) = e.2 := by
  rw [entryLine, List.drop_append]
  simp

theorem mem_entryLine : tab ∈ entryLine tab e := List.mem_append_right _ List.mem_cons_self

variable [DecidableEq γ]

theorem splitOn_entryLines (whole : ∀ e ∈ es, newline ∉ entryLine tab e) :
    (entryLines tab newline es).splitOn newline = es.map (entryLine tab) ++ [[]] := by
  induction es with
  | nil => exact List.splitOn_nil newline
  | cons e es ih =>
      obtain ⟨first, others⟩ := List.forall_mem_cons.1 whole
      rw [entryLines, List.flatMap_cons, List.append_assoc, List.singleton_append,
        List.splitOn_append_cons_self_of_not_mem first]
      exact congrArg (entryLine tab e :: ·) (ih others)

theorem takeWhile_entryLine (plain : tab ∉ e.1) :
    (entryLine tab e).takeWhile (fun c => c ≠ tab) = e.1 := by
  have before : ∀ c ∈ e.1, decide (c ≠ tab) = true := by
    intro c mem
    exact decide_eq_true fun same => plain (same ▸ mem)
  rw [entryLine, List.takeWhile_append_of_pos before, List.takeWhile_cons_of_neg (by simp),
    List.append_nil]

end Lines

end Hx.Library
