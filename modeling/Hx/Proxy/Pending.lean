import Hx.Library.Items
import Hx.Proxy.Capture

/-!
# Requests that wait for their response

`put` writes down when a request started and who made it, `take` gives that back once, and
what does not fit is evicted, the eldest first. Every method holds the map's monitor from its
first read to its last write, so that the calls of any number of threads happen in some order.

A log tells what happened to each key, newest first. What a map should answer is read off the
log alone, without the map.
-/

namespace Hx.Proxy

open Hx.Library

structure Entry where
  startNanos : Int
  source : Source
  deriving DecidableEq

/-- A bound below zero, which no caller passes, would have the loop of `put` ask an empty map
for its eldest entry. `evicted` is a long that no run can wrap. -/
structure Pending where
  capacity : Nat
  live : Items Int Entry
  evicted : Nat

/-- The loop of `put`: the keys it removes, in order, and the pairs that are left. -/
def evictOldest (capacity : Nat) : List (Int × Entry) → List Int × List (Int × Entry)
  | [] => ([], [])
  | p :: rest =>
      if rest.length + 1 > capacity then
        (p.1 :: (evictOldest capacity rest).1, (evictOldest capacity rest).2)
      else ([], p :: rest)

theorem evictOldest_suffix (capacity : Nat) (pairs : List (Int × Entry)) :
    (evictOldest capacity pairs).2 <:+ pairs := by
  induction pairs with
  | nil => exact List.suffix_refl _
  | cons p rest ih =>
      rw [evictOldest]
      split_ifs
      · exact ih.trans (List.suffix_cons p rest)
      · exact List.suffix_refl _

namespace Pending

/-- The constructor. -/
def new (capacity : Nat) : Pending := ⟨capacity, Items.empty, 0⟩

def put (s : Pending) (messageId : Int) (startNanos : Int) (source : Source) : Pending :=
  let live := s.live.put messageId ⟨startNanos, source⟩
  { s with
    live := live.left (evictOldest s.capacity live.pairs).2 (evictOldest_suffix ..)
    evicted := s.evicted + (evictOldest s.capacity live.pairs).1.length }

def take (s : Pending) (messageId : Int) : Option Entry × Pending :=
  (s.live.get messageId, { s with live := s.live.remove messageId })

def size (s : Pending) : Nat := s.live.size

/-! ## What happens to a key -/

inductive Op where
  | put (messageId : Int) (startNanos : Int) (source : Source)
  | take (messageId : Int)

inductive Event where
  | put (messageId : Int) (entry : Entry)
  | evict (messageId : Int)
  | take (messageId : Int) (answer : Option Entry)

/-- A call, and what it adds to the log. -/
def act (s : Pending) (log : List Event) : Op → Pending × List Event
  | .put k nanos source =>
      let gone := (evictOldest s.capacity (s.live.put k ⟨nanos, source⟩).pairs).1
      (s.put k nanos source, (gone.map .evict).reverse ++ .put k ⟨nanos, source⟩ :: log)
  | .take k => ((s.take k).2, .take k (s.take k).1 :: log)

/-- The calls of a run, in order. -/
def run (capacity : Nat) (ops : List Op) : Pending × List Event :=
  ops.foldl (fun r op => r.1.act r.2 op) (new capacity, [])

/-- The last put of a key that has been neither taken nor evicted since: its place in the log
and its entry. -/
def latestPut (k : Int) : List Event → Option (Nat × Entry)
  | [] => none
  | .put k' e :: past => if k' = k then some (past.length, e) else latestPut k past
  | .evict k' :: past => if k' = k then none else latestPut k past
  | .take k' _ :: past => if k' = k then none else latestPut k past

/-- The place of the put that first inserted a live key. -/
def insertedAt (k : Int) : List Event → Option Nat
  | [] => none
  | .put k' _ :: past =>
      if k' = k then some ((insertedAt k past).getD past.length) else insertedAt k past
  | .evict k' :: past => if k' = k then none else insertedAt k past
  | .take k' _ :: past => if k' = k then none else insertedAt k past

/-- The places of the puts that takes have answered with. -/
def returned : List Event → List Nat
  | [] => []
  | .take k (some _) :: past => ((latestPut k past).map Prod.fst).toList ++ returned past
  | _ :: past => returned past

/-- How often a key became live. -/
def insertions : List Event → Nat
  | [] => 0
  | .put k _ :: past => insertions past + if insertedAt k past = none then 1 else 0
  | _ :: past => insertions past

/-- How often a take answered with an entry. -/
def taken : List Event → Nat
  | [] => 0
  | .take _ (some _) :: past => taken past + 1
  | _ :: past => taken past

/-- How often a key was evicted. -/
def evictions : List Event → Nat
  | [] => 0
  | .evict _ :: past => evictions past + 1
  | _ :: past => evictions past

/-- What the log of a map says of it. -/
structure Exact (s : Pending) (log : List Event) : Prop where
  bounded : s.size ≤ s.capacity
  latest : ∀ k answer past, .take k answer :: past <:+ log →
    answer = (latestPut k past).map Prod.snd
  once : (returned log).Nodup
  eldest : ∀ k past, .evict k :: past <:+ log →
    ∃ i, insertedAt k past = some i ∧ ∀ k' i', insertedAt k' past = some i' → i ≤ i'
  evicted : s.evicted = evictions log
  conserved : insertions log = taken log + s.evicted + s.size

/-! ## One event -/

/-- What the log says of a map, at any moment, also while `put` evicts. -/
structure Booked (live : Items Int Entry) (log : List Event) : Prop where
  get : ∀ k, live.get k = (latestPut k log).map Prod.snd
  mem : ∀ k, k ∈ live.keys ↔ (insertedAt k log).isSome
  ordered : live.keys.Pairwise fun a b =>
    ∀ i j, insertedAt a log = some i → insertedAt b log = some j → i < j
  latest : ∀ k answer past, .take k answer :: past <:+ log →
    answer = (latestPut k past).map Prod.snd
  once : (returned log).Nodup
  kept : ∀ k p, latestPut k log = some p → p.1 ∉ returned log
  eldest : ∀ k past, .evict k :: past <:+ log →
    ∃ i, insertedAt k past = some i ∧ ∀ k' i', insertedAt k' past = some i' → i ≤ i'
  conserved : insertions log = taken log + evictions log + live.size

variable {k k' : Int} {e : Entry} {answer : Option Entry} {log past : List Event}
  {live : Items Int Entry} {i : Nat}

theorem insertedAt_lt (at_ : insertedAt k log = some i) : i < log.length := by
  induction log with
  | nil => cases at_
  | cons a past ih =>
      have later (old : insertedAt k past = some i) : i < past.length + 1 :=
        Nat.lt_succ_of_lt (ih old)
      cases a with
      | put k' e =>
          rw [insertedAt] at at_
          split_ifs at at_ with same
          · cases held : insertedAt k past with
            | none =>
                rw [held] at at_
                cases at_
                exact Nat.lt_succ_self _
            | some j =>
                rw [held] at at_
                cases at_
                exact later held
          · exact later at_
      | evict k' =>
          rw [insertedAt] at at_
          split_ifs at at_
          exact later at_
      | take k' answer =>
          rw [insertedAt] at at_
          split_ifs at at_
          exact later at_

theorem latestPut_lt {p : Nat × Entry} (at_ : latestPut k log = some p) : p.1 < log.length := by
  induction log with
  | nil => cases at_
  | cons a past ih =>
      have later (old : latestPut k past = some p) : p.1 < past.length + 1 :=
        Nat.lt_succ_of_lt (ih old)
      cases a with
      | put k' e =>
          rw [latestPut] at at_
          split_ifs at at_
          · cases at_
            exact Nat.lt_succ_self _
          · exact later at_
      | evict k' =>
          rw [latestPut] at at_
          split_ifs at at_
          exact later at_
      | take k' answer =>
          rw [latestPut] at at_
          split_ifs at at_
          exact later at_

/-- A put has one key. -/
theorem latestPut_inj {p q : Nat × Entry} (one : latestPut k log = some p)
    (two : latestPut k' log = some q) (same : p.1 = q.1) : k = k' := by
  induction log with
  | nil => cases one
  | cons a past ih =>
      cases a with
      | put k'' e =>
          rw [latestPut] at one two
          split_ifs at one two with here there there
          · exact here.symm.trans there
          · cases one
            exact absurd same.symm (Nat.ne_of_lt (latestPut_lt two))
          · cases two
            exact absurd same (Nat.ne_of_lt (latestPut_lt one))
          · exact ih one two
      | evict k'' =>
          rw [latestPut] at one two
          split_ifs at one two
          exact ih one two
      | take k'' answer =>
          rw [latestPut] at one two
          split_ifs at one two
          exact ih one two

theorem mem_returned_lt (mem : i ∈ returned log) : i < log.length := by
  induction log with
  | nil => cases mem
  | cons a past ih =>
      have later (old : i ∈ returned past) : i < past.length + 1 := Nat.lt_succ_of_lt (ih old)
      cases a with
      | put k e => exact later mem
      | evict k => exact later mem
      | take k answer =>
          cases answer with
          | none => exact later mem
          | some e =>
              cases List.mem_append.1 mem with
              | inl now =>
                  obtain ⟨p, at_, rfl⟩ := Option.map_eq_some_iff.1 (Option.mem_toList.1 now)
                  exact Nat.lt_succ_of_lt (latestPut_lt at_)
              | inr old => exact later old

namespace Booked

variable {p : Int × Entry} {rest : List (Int × Entry)}

theorem empty : Booked Items.empty [] where
  get _ := rfl
  mem _ := ⟨nofun, nofun⟩
  ordered := .nil
  latest _ _ _ past := absurd (List.suffix_nil.1 past) (List.cons_ne_nil _ _)
  once := .nil
  kept _ _ _ := List.not_mem_nil
  eldest _ _ past := absurd (List.suffix_nil.1 past) (List.cons_ne_nil _ _)
  conserved := rfl

theorem put (h : Booked live log) (k : Int) (e : Entry) :
    Booked (live.put k e) (.put k e :: log) where
  get k' := by
    rw [Items.get_put, latestPut, h.get]
    simp only [eq_comm (a := k')]
    split_ifs <;> rfl
  mem k' := by
    rw [insertedAt]
    refine mem_keys_putPair.trans ?_
    split_ifs with same
    · simp [same]
    · rw [or_iff_right (Ne.symm same)]
      exact h.mem k'
  ordered := by
    by_cases held : k ∈ live.keys
    · have keys : (live.put k e).keys = live.keys := keys_putPair_of_mem held
      have at_ : ∀ b ∈ live.keys, insertedAt b (.put k e :: log) = insertedAt b log := by
        intro b mem
        rw [insertedAt]
        split_ifs with same
        · obtain ⟨i, here⟩ := Option.isSome_iff_exists.1 ((h.mem b).1 mem)
          rw [here]
          rfl
        · rfl
      rw [keys]
      refine List.Pairwise.imp_of_mem (fun first second before => ?_) h.ordered
      rw [at_ _ first, at_ _ second]
      exact before
    · have keys : (live.put k e).keys = live.keys ++ [k] := by
        show (putPair k e live.pairs).map Prod.fst = _
        rw [putPair_of_notMem held, List.map_append]
        rfl
      have at_ : ∀ b ∈ live.keys, insertedAt b (.put k e :: log) = insertedAt b log := by
        intro b mem
        have other : k ≠ b := fun same => held (same ▸ mem)
        rw [insertedAt, if_neg other]
      rw [keys, List.pairwise_append]
      refine ⟨?_, List.pairwise_singleton _ _, ?_⟩
      · refine List.Pairwise.imp_of_mem (fun first second before => ?_) h.ordered
        rw [at_ _ first, at_ _ second]
        exact before
      · intro a mem b last i j first second
        obtain rfl := List.mem_singleton.1 last
        have fresh : insertedAt b log = none :=
          Option.not_isSome_iff_eq_none.1 (held ∘ (h.mem b).2)
        rw [insertedAt, if_pos rfl, fresh] at second
        cases second
        exact insertedAt_lt (at_ a mem ▸ first)
  latest k' answer past later := by
    cases List.suffix_cons_iff.1 later with
    | inl now => cases now
    | inr old => exact h.latest k' answer past old
  once := h.once
  kept k' p at_ := by
    rw [latestPut] at at_
    split_ifs at at_
    · cases at_
      intro (mem : log.length ∈ returned log)
      exact Nat.lt_irrefl _ (mem_returned_lt mem)
    · exact h.kept k' p at_
  eldest k' past later := by
    cases List.suffix_cons_iff.1 later with
    | inl now => cases now
    | inr old => exact h.eldest k' past old
  conserved := by
    have before := h.conserved
    show insertions log + (if insertedAt k log = none then 1 else 0) =
      taken log + evictions log + (live.put k e).size
    by_cases held : k ∈ live.keys
    · have size : (live.put k e).size = live.size := by
        have same := congrArg List.length (keys_putPair_of_mem (v := e) held)
        rw [List.length_map, List.length_map] at same
        exact same
      obtain ⟨i, here⟩ := Option.isSome_iff_exists.1 ((h.mem k).1 held)
      rw [here, if_neg (Option.some_ne_none i), size]
      exact before
    · have size : (live.put k e).size = live.size + 1 := by
        show (putPair k e live.pairs).length = _
        rw [putPair_of_notMem held, List.length_append]
        rfl
      rw [if_pos (Option.not_isSome_iff_eq_none.1 (held ∘ (h.mem k).2)), size]
      omega

theorem evict (h : Booked live log) (whole : live.pairs = p :: rest)
    (left : rest <:+ live.pairs) : Booked (live.left rest left) (.evict p.1 :: log) where
  get k := by
    have unique := live.unique
    rw [whole, List.map_cons, List.nodup_cons] at unique
    rw [latestPut]
    split_ifs with same
    · exact Items.get_eq_none.2 (same ▸ unique.1)
    · have past := h.get k
      rw [Items.get, whole, getPair, if_neg same] at past
      exact past
  mem k := by
    have unique := live.unique
    rw [whole, List.map_cons, List.nodup_cons] at unique
    have past := h.mem k
    rw [Items.keys, whole, List.map_cons, List.mem_cons] at past
    show k ∈ rest.map Prod.fst ↔ _
    rw [insertedAt]
    split_ifs with same
    · subst same
      exact ⟨fun mem => absurd mem unique.1, fun some_ => absurd some_ Bool.false_ne_true⟩
    · rw [← past, or_iff_right (Ne.symm same)]
  ordered := by
    have order := h.ordered
    rw [Items.keys, whole, List.map_cons, List.pairwise_cons] at order
    refine order.2.imp fun before i j first second => before i j ?_ ?_
    · rw [insertedAt] at first
      split_ifs at first
      exact first
    · rw [insertedAt] at second
      split_ifs at second
      exact second
  latest k answer past later := by
    cases List.suffix_cons_iff.1 later with
    | inl now => cases now
    | inr old => exact h.latest k answer past old
  once := h.once
  kept k p at_ := by
    rw [latestPut] at at_
    split_ifs at at_
    exact h.kept k p at_
  eldest k past later := by
    cases List.suffix_cons_iff.1 later with
    | inr old => exact h.eldest k past old
    | inl now =>
        cases now
        have order := h.ordered
        have held : p.1 ∈ live.keys := by
          rw [Items.keys, whole]
          exact List.mem_cons_self
        obtain ⟨i, here⟩ := Option.isSome_iff_exists.1 ((h.mem p.1).1 held)
        refine ⟨i, here, fun k' i' there => ?_⟩
        have held' : k' ∈ live.keys := (h.mem k').2 (Option.isSome_iff_exists.2 ⟨i', there⟩)
        rw [Items.keys, whole, List.map_cons] at order held'
        cases List.mem_cons.1 held' with
        | inl same =>
            rw [same, here] at there
            exact Nat.le_of_eq (Option.some.inj there)
        | inr behind =>
            exact Nat.le_of_lt ((List.pairwise_cons.1 order).1 k' behind i i' here there)
  conserved := by
    have before := h.conserved
    show insertions log = taken log + (evictions log + 1) + rest.length
    rw [Items.size, whole, List.length_cons] at before
    omega

theorem take (h : Booked live log) (k : Int) :
    Booked (live.remove k) (.take k (live.get k) :: log) where
  get k' := by
    rw [Items.get_remove, latestPut, h.get]
    simp only [eq_comm (a := k')]
    split_ifs <;> rfl
  mem k' := by
    rw [Items.keys_remove, List.mem_filter, insertedAt, h.mem]
    split_ifs with same
    · simp [same]
    · simp [Ne.symm same]
  ordered := by
    rw [Items.keys_remove]
    refine (h.ordered.filter _).imp fun before i j first second => before i j ?_ ?_
    · rw [insertedAt] at first
      split_ifs at first
      exact first
    · rw [insertedAt] at second
      split_ifs at second
      exact second
  latest k' answer past later := by
    cases List.suffix_cons_iff.1 later with
    | inr old => exact h.latest k' answer past old
    | inl now =>
        cases now
        exact h.get k
  once := by
    cases held : latestPut k log with
    | none =>
        rw [h.get, held]
        exact h.once
    | some p =>
        rw [h.get, held]
        show (((latestPut k log).map Prod.fst).toList ++ returned log).Nodup
        rw [held]
        exact List.nodup_cons.2 ⟨h.kept k p held, h.once⟩
  kept k' p at_ := by
    rw [latestPut] at at_
    split_ifs at at_ with other
    have fresh := h.kept k' p at_
    cases held : latestPut k log with
    | none =>
        rw [h.get, held]
        exact fresh
    | some q =>
        rw [h.get, held]
        show p.1 ∉ ((latestPut k log).map Prod.fst).toList ++ returned log
        rw [held]
        intro mem
        cases List.mem_cons.1 mem with
        | inl same => exact other (latestPut_inj held at_ same.symm)
        | inr old => exact fresh old
  eldest k' past later := by
    cases List.suffix_cons_iff.1 later with
    | inl now => cases now
    | inr old => exact h.eldest k' past old
  conserved := by
    have before := h.conserved
    have fewer := live.size_remove k
    cases held : live.get k with
    | none =>
        show insertions log = taken log + evictions log + _
        have absent : k ∉ live.keys := Items.get_eq_none.1 held
        rw [if_neg absent] at fewer
        omega
    | some e =>
        show insertions log = taken log + 1 + evictions log + _
        have mem : k ∈ live.keys := List.mem_map.2 ⟨_, Items.get_eq_some.1 held, rfl⟩
        rw [if_pos mem] at fewer
        omega

/-- The loop of `put`. -/
theorem evictOldest (h : Booked live log) (capacity : Nat) {pairs : List (Int × Entry)}
    (whole : live.pairs = pairs) (left : (Proxy.evictOldest capacity pairs).2 <:+ live.pairs) :
    Booked (live.left (Proxy.evictOldest capacity pairs).2 left)
      (((Proxy.evictOldest capacity pairs).1.map .evict).reverse ++ log) := by
  induction pairs generalizing live log with
  | nil => exact (Items.ext whole : live = live.left [] left) ▸ h
  | cons p rest ih =>
      have tail : rest <:+ live.pairs := whole ▸ List.suffix_cons p rest
      have next := ih (h.evict whole tail) rfl (evictOldest_suffix capacity rest)
      by_cases over_ : rest.length + 1 > capacity
      · simp only [Proxy.evictOldest, if_pos over_, List.map_cons, List.reverse_cons,
          List.append_assoc, List.singleton_append]
        exact next
      · simp only [Proxy.evictOldest, if_neg over_]
        exact (Items.ext whole : live = live.left (p :: rest) _) ▸ h

theorem exact {s : Pending} (h : Booked s.live log) (bounded : s.size ≤ s.capacity)
    (evicted : s.evicted = evictions log) : Exact s log :=
  ⟨bounded, h.latest, h.once, h.eldest, evicted, evicted ▸ h.conserved⟩

end Booked

/-! ## Every run -/

theorem length_evictOldest (capacity : Nat) (pairs : List (Int × Entry)) :
    (evictOldest capacity pairs).2.length ≤ capacity := by
  induction pairs with
  | nil => exact Nat.zero_le _
  | cons p rest ih =>
      rw [evictOldest]
      split_ifs with over_
      · exact ih
      · exact Nat.le_of_not_lt over_

theorem evictions_append (gone : List Int) :
    evictions ((gone.map Event.evict).reverse ++ log) = gone.length + evictions log := by
  induction gone generalizing log with
  | nil => exact (Nat.zero_add _).symm
  | cons k rest ih =>
      rw [List.map_cons, List.reverse_cons, List.append_assoc, List.singleton_append, ih,
        List.length_cons]
      show rest.length + (evictions log + 1) = _
      omega

/-- What every call keeps. -/
structure Kept (s : Pending) (log : List Event) : Prop where
  booked : Booked s.live log
  bounded : s.size ≤ s.capacity
  evicted : s.evicted = evictions log

theorem Kept.act {s : Pending} (h : Kept s log) (op : Op) :
    Kept (s.act log op).1 (s.act log op).2 := by
  cases op with
  | put k nanos source =>
      refine ⟨(h.booked.put k _).evictOldest s.capacity rfl (evictOldest_suffix ..),
        length_evictOldest _ _, ?_⟩
      refine Eq.trans ?_ (evictions_append _).symm
      show s.evicted + _ = _ + evictions log
      rw [h.evicted]
      exact Nat.add_comm _ _
  | take k =>
      refine ⟨h.booked.take k, ?_, h.evicted⟩
      exact Nat.le_trans (List.length_filter_le _ _) h.bounded

theorem kept_run (capacity : Nat) (ops : List Op) :
    Kept (run capacity ops).1 (run capacity ops).2 := by
  have go : ∀ (ops : List Op) (r : Pending × List Event), Kept r.1 r.2 →
      Kept (ops.foldl (fun r op => r.1.act r.2 op) r).1
        (ops.foldl (fun r op => r.1.act r.2 op) r).2 := by
    intro ops
    induction ops with
    | nil => exact fun _ h => h
    | cons op rest ih => exact fun r h => ih _ (h.act op)
  exact go ops _ ⟨.empty, Nat.zero_le _, rfl⟩

/-- In any sequence of calls the map stays inside its bound; a take answers with the last put
of its key that has been neither taken nor evicted, and no two takes with the same put; what
is evicted is the live key that was first inserted longest ago; and every key that was
inserted has been taken, has been counted as evicted, or is held. -/
theorem run_exact (capacity : Nat) (ops : List Op) :
    (run capacity ops).1.capacity = capacity ∧
      Exact (run capacity ops).1 (run capacity ops).2 := by
  have kept := kept_run capacity ops
  refine ⟨?_, kept.booked.exact kept.bounded kept.evicted⟩
  have go : ∀ (ops : List Op) (r : Pending × List Event),
      (ops.foldl (fun r op => r.1.act r.2 op) r).1.capacity = r.1.capacity := by
    intro ops
    induction ops with
    | nil => exact fun _ => rfl
    | cons op rest ih => exact fun r => (ih _).trans (by cases op <;> rfl)
  exact go ops _

end Pending

end Hx.Proxy
