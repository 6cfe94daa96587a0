import Mathlib.Data.List.Basic
import Mathlib.Data.List.Nodup
import Mathlib.Tactic.SplitIfs

/-!
# Maps in insertion order

A key that is put again keeps its place and takes the new value; a new one goes last. The
keys of such a map are distinct, so that its pairs are all there is to say about it.
-/

namespace Hx.Library

variable {α β : Type} [DecidableEq α]

/-- The pairs after a key is put. -/
def putPair (key : α) (v : β) : List (α × β) → List (α × β)
  | [] => [(key, v)]
  | (k, old) :: rest => if k = key then (key, v) :: rest else (k, old) :: putPair key v rest

theorem mem_keys_putPair {key : α} {v : β} {pairs : List (α × β)} {k : α} :
    k ∈ (putPair key v pairs).map Prod.fst ↔ k = key ∨ k ∈ pairs.map Prod.fst := by
  induction pairs with
  | nil => simp [putPair]
  | cons p rest ih =>
      obtain ⟨first, old⟩ := p
      rw [putPair]
      split_ifs with same
      · subst same
        simp
      · simp only [List.map_cons, List.mem_cons, ih]
        tauto

theorem nodup_putPair {key : α} {v : β} {pairs : List (α × β)}
    (unique : (pairs.map Prod.fst).Nodup) : ((putPair key v pairs).map Prod.fst).Nodup := by
  induction pairs with
  | nil => exact List.nodup_singleton key
  | cons p rest ih =>
      obtain ⟨first, old⟩ := p
      obtain ⟨fresh, others⟩ := List.nodup_cons.1 unique
      rw [putPair]
      split_ifs with same
      · subst same
        exact unique
      · refine List.nodup_cons.2 ⟨fun mem => ?_, ih others⟩
        cases mem_keys_putPair.1 mem with
        | inl eq => exact same eq
        | inr old => exact fresh old

/-- A key is put behind those that are another. -/
theorem putPair_append {key : α} {v : β} {front rest : List (α × β)}
    (apart : key ∉ front.map Prod.fst) :
    putPair key v (front ++ rest) = front ++ putPair key v rest := by
  induction front with
  | nil => rfl
  | cons p front ih =>
      obtain ⟨first, old⟩ := p
      rw [List.map_cons, List.mem_cons, not_or] at apart
      rw [List.cons_append, putPair, if_neg (Ne.symm apart.1), ih apart.2]
      rfl

/-- A new key goes last. -/
theorem putPair_of_notMem {key : α} {v : β} {pairs : List (α × β)}
    (fresh : key ∉ pairs.map Prod.fst) : putPair key v pairs = pairs ++ [(key, v)] := by
  have behind : putPair key v (pairs ++ []) = pairs ++ putPair key v [] := putPair_append fresh
  rwa [List.append_nil] at behind

/-- A key that is there keeps its place. -/
theorem keys_putPair_of_mem {key : α} {v : β} {pairs : List (α × β)}
    (there : key ∈ pairs.map Prod.fst) :
    (putPair key v pairs).map Prod.fst = pairs.map Prod.fst := by
  induction pairs with
  | nil => exact absurd there List.not_mem_nil
  | cons p rest ih =>
      obtain ⟨first, old⟩ := p
      rw [putPair]
      split_ifs with same
      · exact congrArg (· :: rest.map Prod.fst) same.symm
      · have later := (List.mem_cons.1 there).resolve_left (Ne.symm same)
        exact congrArg (first :: ·) (ih later)

/-- The value of the first pair under a key. -/
def getPair (key : α) : List (α × β) → Option β
  | [] => none
  | (k, v) :: rest => if k = key then some v else getPair key rest

theorem getPair_putPair (key : α) (v : β) (pairs : List (α × β)) (k : α) :
    getPair k (putPair key v pairs) = if k = key then some v else getPair k pairs := by
  induction pairs with
  | nil =>
      rw [putPair, getPair, getPair]
      simp only [eq_comm, getPair]
  | cons p rest ih =>
      obtain ⟨first, old⟩ := p
      rw [putPair]
      by_cases here : first = key
      · subst here
        rw [if_pos rfl, getPair, getPair]
        simp only [eq_comm]
        split_ifs <;> rfl
      · rw [if_neg here, getPair, getPair, ih]
        by_cases there : first = k
        · subst there
          rw [if_pos rfl, if_pos rfl, if_neg here]
        · rw [if_neg there, if_neg there]

theorem getPair_eq_none {key : α} {pairs : List (α × β)} :
    getPair key pairs = none ↔ key ∉ pairs.map Prod.fst := by
  induction pairs with
  | nil => simp [getPair]
  | cons p rest ih =>
      obtain ⟨first, old⟩ := p
      rw [getPair, List.map_cons, List.mem_cons, not_or, ← ih]
      split_ifs with same
      · simp [same]
      · simp [Ne.symm same]

theorem getPair_eq_some {key : α} {v : β} {pairs : List (α × β)}
    (unique : (pairs.map Prod.fst).Nodup) : getPair key pairs = some v ↔ (key, v) ∈ pairs := by
  induction pairs with
  | nil => simp [getPair]
  | cons p rest ih =>
      obtain ⟨first, old⟩ := p
      obtain ⟨fresh, others⟩ := List.nodup_cons.1 unique
      rw [getPair, List.mem_cons]
      split_ifs with same
      · subst same
        have absent : (first, v) ∉ rest := fun mem => fresh (List.mem_map.2 ⟨_, mem, rfl⟩)
        simp [absent, eq_comm]
      · rw [ih others]
        simp [Ne.symm same]

/-- A map as its pairs, in the order their keys were first put. -/
structure Items (α β : Type) where
  pairs : List (α × β)
  unique : (pairs.map Prod.fst).Nodup

namespace Items

omit [DecidableEq α] in
@[ext] theorem ext {m n : Items α β} (same : m.pairs = n.pairs) : m = n := by
  cases m
  cases n
  cases same
  rfl

def empty : Items α β := ⟨[], List.nodup_nil⟩

def put (m : Items α β) (key : α) (v : β) : Items α β :=
  ⟨putPair key v m.pairs, nodup_putPair m.unique⟩

@[simp] theorem pairs_put (m : Items α β) (key : α) (v : β) :
    (m.put key v).pairs = putPair key v m.pairs := rfl

def get (m : Items α β) (key : α) : Option β := getPair key m.pairs

/-- The map without a key. -/
def remove (m : Items α β) (key : α) : Items α β :=
  ⟨m.pairs.filter fun p => p.1 ≠ key, m.unique.sublist (List.filter_sublist.map _)⟩

/-- The pairs that are left of a map. -/
def left (m : Items α β) (pairs : List (α × β)) (rest : pairs <:+ m.pairs) : Items α β :=
  ⟨pairs, m.unique.sublist (rest.sublist.map _)⟩

def size (m : Items α β) : ℕ := m.pairs.length

def keys (m : Items α β) : List α := m.pairs.map Prod.fst

/-- The map that a list of pairs is put into. -/
def ofPairs (pairs : List (α × β)) : Items α β := pairs.foldl (fun m p => m.put p.1 p.2) empty

theorem get_put (m : Items α β) (key : α) (v : β) (k : α) :
    (m.put key v).get k = if k = key then some v else m.get k := getPair_putPair key v m.pairs k

/-- What is found under a key is one of the pairs. -/
theorem get_eq_some {m : Items α β} {key : α} {v : β} :
    m.get key = some v ↔ (key, v) ∈ m.pairs := getPair_eq_some m.unique

theorem get_eq_none {m : Items α β} {key : α} :
    m.get key = none ↔ key ∉ m.pairs.map Prod.fst := getPair_eq_none

theorem get_remove (m : Items α β) (key k : α) :
    (m.remove key).get k = if k = key then none else m.get k := by
  split_ifs with same
  · refine get_eq_none.2 fun mem => ?_
    obtain ⟨p, kept, named⟩ := List.mem_map.1 mem
    exact of_decide_eq_true (List.mem_filter.1 kept).2 (named.trans same)
  · refine Option.ext fun v => ?_
    rw [get_eq_some, get_eq_some, remove, List.mem_filter]
    simp [same]

theorem keys_remove (m : Items α β) (key : α) :
    (m.remove key).keys = m.keys.filter fun k => k ≠ key := by
  rw [keys, keys, remove, List.filter_map]
  rfl

/-- A key that is there takes one pair with it. -/
theorem size_remove (m : Items α β) (key : α) :
    (m.remove key).size + (if key ∈ m.keys then 1 else 0) = m.size := by
  have lengths (n : Items α β) : n.size = n.keys.length := (List.length_map _).symm
  have erased : (m.remove key).keys = m.keys.erase key := by
    refine (keys_remove m key).trans ((List.Nodup.erase_eq_filter m.unique key).trans ?_).symm
    exact List.filter_congr fun k _ => by by_cases same : k = key <;> simp [same]
  rw [lengths, lengths, erased, List.length_erase]
  split_ifs with mem
  · have := List.length_pos_of_mem mem
    omega
  · rfl

/-- Pairs put behind those of a map, under keys of their own. -/
theorem foldl_put {m : Items α β} {pairs : List (α × β)}
    (unique : ((m.pairs ++ pairs).map Prod.fst).Nodup) :
    (pairs.foldl (fun m p => m.put p.1 p.2) m).pairs = m.pairs ++ pairs := by
  induction pairs generalizing m with
  | nil => exact (List.append_nil _).symm
  | cons p rest ih =>
      have fresh : p.1 ∉ m.pairs.map Prod.fst := by
        intro mem
        rw [List.map_append, List.nodup_append] at unique
        exact unique.2.2 _ mem _ List.mem_cons_self rfl
      have put : (m.put p.1 p.2).pairs = m.pairs ++ [p] := putPair_of_notMem fresh
      have next : (((m.put p.1 p.2).pairs ++ rest).map Prod.fst).Nodup := by
        rw [put, List.append_assoc]
        exact unique
      rw [List.foldl_cons, ih next, put, List.append_assoc]
      rfl

theorem pairs_ofPairs {pairs : List (α × β)} (unique : (pairs.map Prod.fst).Nodup) :
    (ofPairs pairs).pairs = pairs := foldl_put unique

/-- What is put into a map is found among the pairs it was put with. -/
theorem mem_of_mem_putPair {key : α} {v : β} {pairs : List (α × β)} {p : α × β}
    (mem : p ∈ putPair key v pairs) : p = (key, v) ∨ p ∈ pairs := by
  induction pairs with
  | nil => exact .inl (List.mem_singleton.1 mem)
  | cons q rest ih =>
      obtain ⟨first, old⟩ := q
      rw [putPair] at mem
      split_ifs at mem
      · cases mem with
        | head => exact .inl rfl
        | tail _ later => exact .inr (List.mem_cons_of_mem _ later)
      · cases mem with
        | head => exact .inr List.mem_cons_self
        | tail _ later => exact (ih later).imp_right (List.mem_cons_of_mem _)

theorem mem_of_mem_ofPairs {pairs : List (α × β)} {p : α × β}
    (mem : p ∈ (ofPairs pairs).pairs) : p ∈ pairs := by
  have go : ∀ (pairs : List (α × β)) (m : Items α β),
      p ∈ (pairs.foldl (fun m p => m.put p.1 p.2) m).pairs → p ∈ m.pairs ∨ p ∈ pairs := by
    intro pairs
    induction pairs with
    | nil => exact fun m mem => .inl mem
    | cons q rest ih =>
        intro m mem
        obtain old | later := ih _ mem
        · obtain rfl | old := mem_of_mem_putPair old
          · exact .inr List.mem_cons_self
          · exact .inl old
        · exact .inr (List.mem_cons_of_mem _ later)
  exact (go pairs empty mem).resolve_left List.not_mem_nil

omit [DecidableEq α] in
/-- Keys stay distinct where no two of them are renamed alike. -/
theorem nodup_map {γ δ : Type} {pairs : List (α × β)} (unique : (pairs.map Prod.fst).Nodup)
    {f : α → γ} (g : β → δ) (apart : ∀ p ∈ pairs, ∀ q ∈ pairs, f p.1 = f q.1 → p.1 = q.1) :
    ((pairs.map fun p => (f p.1, g p.2)).map Prod.fst).Nodup := by
  have keys : (pairs.map fun p => (f p.1, g p.2)).map Prod.fst = (pairs.map Prod.fst).map f := by
    rw [List.map_map, List.map_map]
    rfl
  rw [keys]
  refine List.Nodup.map_on (fun x mem y mem' same => ?_) unique
  obtain ⟨p, inside, rfl⟩ := List.mem_map.1 mem
  obtain ⟨q, inside', rfl⟩ := List.mem_map.1 mem'
  exact apart p inside q inside' same

/-- The pairs of a map make that map. -/
theorem ofPairs_pairs (m : Items α β) : ofPairs m.pairs = m := ext (pairs_ofPairs m.unique)

end Items

end Hx.Library
