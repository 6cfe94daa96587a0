import Mathlib.Data.Finset.Card
import Mathlib.Data.List.Nodup
import Mathlib.Logic.Function.Iterate

/-!
# Worklists with a construction bound

A worklist holds what was found, oldest first, and what is still to be expanded.
Expanding an element offers everything derived from it; an offer is taken when the
element is new and the collection is not already past its limit. `run` stops when
nothing is pending, when the limit is passed, or when its fuel is used up.

Fuel is no restriction: over a finite universe that `derive` stays in, one unit for
each element of the universe and one for each pending element is enough. A run that
stays within its limit is closed under `derive`, and is the run without a limit.
-/

namespace Hx.Library

universe u

structure Worklist (α : Type u) where
  out : List α
  pending : List α

namespace Worklist

variable {α : Type u}

/-- `size <= limit`, where `none` is the limit no collection passes. -/
def within : Option Nat → Nat → Bool
  | none, _ => true
  | some limit, size => size ≤ limit

variable [DecidableEq α]

def offer (limit : Option Nat) (w : Worklist α) (x : α) : Worklist α :=
  if within limit w.out.length && !w.out.contains x then ⟨w.out ++ [x], w.pending ++ [x]⟩ else w

def offerAll (limit : Option Nat) (w : Worklist α) (xs : List α) : Worklist α :=
  xs.foldl (offer limit) w

/-- Expand pending elements, first come first served. -/
def run (limit : Option Nat) (derive : α → List α) : Nat → Worklist α → List α
  | 0, w => w.out
  | fuel + 1, w =>
      match w.pending with
      | [] => w.out
      | x :: rest =>
          if within limit w.out.length then
            run limit derive fuel (offerAll limit ⟨w.out, rest⟩ (derive x))
          else w.out

variable {limit : Option Nat} {derive : α → List α} {w : Worklist α} {x : α} {xs : List α}

@[simp] theorem offerAll_nil : offerAll limit w [] = w := rfl

@[simp] theorem offerAll_cons :
    offerAll limit w (x :: xs) = offerAll limit (offer limit w x) xs := rfl

/-- A smaller collection is within every limit a larger one is within. -/
theorem within_of_le {m n : Nat} (le : m ≤ n) (h : within limit n = true) :
    within limit m = true := by
  cases limit with
  | none => rfl
  | some l =>
      simp only [within, decide_eq_true_eq] at h ⊢
      omega

/-! ## What an offer keeps -/

theorem mem_offer {y : α} (h : y ∈ w.out) : y ∈ (offer limit w x).out := by
  unfold offer
  split
  · exact List.mem_append_left _ h
  · exact h

theorem mem_offerAll {y : α} (h : y ∈ w.out) : y ∈ (offerAll limit w xs).out := by
  induction xs generalizing w with
  | nil => exact h
  | cons x xs ih => exact ih (mem_offer h)

theorem mem_pending_offer {y : α} (h : y ∈ w.pending) : y ∈ (offer limit w x).pending := by
  unfold offer
  split
  · exact List.mem_append_left _ h
  · exact h

theorem mem_pending_offerAll {y : α} (h : y ∈ w.pending) :
    y ∈ (offerAll limit w xs).pending := by
  induction xs generalizing w with
  | nil => exact h
  | cons x xs ih => exact ih (mem_pending_offer h)

theorem length_le_offer : w.out.length ≤ (offer limit w x).out.length := by
  unfold offer
  split
  · simp
  · exact Nat.le_refl _

theorem length_le_offerAll : w.out.length ≤ (offerAll limit w xs).out.length := by
  induction xs generalizing w with
  | nil => exact Nat.le_refl _
  | cons x xs ih => exact Nat.le_trans length_le_offer ih

/-- An offer adds to the collection and to the pending elements alike. -/
theorem mem_of_mem_offer {y : α} (h : y ∈ (offer limit w x).out) :
    y ∈ w.out ∨ (y = x ∧ y ∈ (offer limit w x).pending) := by
  unfold offer at h ⊢
  split at h
  · rename_i fresh
    rw [if_pos fresh]
    obtain old | new := List.mem_append.1 h
    · exact .inl old
    · obtain rfl := List.mem_singleton.1 new
      exact .inr ⟨rfl, List.mem_append_right _ new⟩
  · exact .inl h

theorem mem_of_mem_offerAll {y : α} (h : y ∈ (offerAll limit w xs).out) :
    y ∈ w.out ∨ (y ∈ xs ∧ y ∈ (offerAll limit w xs).pending) := by
  induction xs generalizing w with
  | nil => exact .inl h
  | cons x xs ih =>
      obtain offered | ⟨among, pending⟩ := ih h
      · obtain old | ⟨rfl, pending⟩ := mem_of_mem_offer offered
        · exact .inl old
        · exact .inr ⟨.head _, mem_pending_offerAll (w := offer limit w y) pending⟩
      · exact .inr ⟨.tail _ among, pending⟩

theorem mem_pending_of_mem_offer {y : α} (h : y ∈ (offer limit w x).pending) :
    y ∈ w.pending ∨ y = x := by
  unfold offer at h
  split at h
  · simpa using h
  · exact .inl h

theorem mem_pending_of_mem_offerAll {y : α} (h : y ∈ (offerAll limit w xs).pending) :
    y ∈ w.pending ∨ y ∈ xs := by
  induction xs generalizing w with
  | nil => exact .inl h
  | cons x xs ih =>
      obtain offered | among := ih h
      · obtain old | rfl := mem_pending_of_mem_offer offered
        · exact .inl old
        · exact .inr (.head _)
      · exact .inr (.tail _ among)

/-- A collection that stays within its limit has taken every offer. -/
theorem offerAll_of_within (h : within limit (offerAll limit w xs).out.length = true) :
    (∀ y ∈ xs, y ∈ (offerAll limit w xs).out) ∧
      offerAll none w xs = offerAll limit w xs := by
  induction xs generalizing w with
  | nil => exact ⟨nofun, rfl⟩
  | cons x xs ih =>
      have still : within limit w.out.length = true :=
        within_of_le (Nat.le_trans length_le_offer length_le_offerAll) h
      have same : offer none w x = offer limit w x := by
        unfold offer
        rw [still]
        rfl
      obtain ⟨taken, unlimited⟩ := ih h
      refine ⟨fun y among => ?_, ?_⟩
      · obtain rfl | among := List.mem_cons.1 among
        · have new : y ∈ (offer limit w y).out := by
            by_cases old : y ∈ w.out
            · exact mem_offer old
            · simp [offer, still, old]
          exact mem_offerAll (w := offer limit w y) new
        · exact taken y among
      · rw [offerAll_cons, same, unlimited, offerAll_cons]

theorem nodup_offer (h : w.out.Nodup) : (offer limit w x).out.Nodup := by
  unfold offer
  split
  · rename_i fresh
    have new : x ∉ w.out := by simpa using (Bool.and_eq_true_iff.1 fresh).2
    exact List.nodup_append.2 ⟨h, List.nodup_singleton x, by
      rintro y old _ at' rfl
      exact new (List.mem_singleton.1 at' ▸ old)⟩
  · exact h

theorem nodup_offerAll (h : w.out.Nodup) : (offerAll limit w xs).out.Nodup := by
  induction xs generalizing w with
  | nil => exact h
  | cons x xs ih => exact ih (nodup_offer h)

/-- An offer adds as much to the pending elements as to the collection. -/
theorem offerAll_balance :
    (offerAll limit w xs).pending.length + w.out.length =
      (offerAll limit w xs).out.length + w.pending.length := by
  induction xs generalizing w with
  | nil => exact Nat.add_comm _ _
  | cons x xs ih =>
      have rest := @ih (offer limit w x)
      rw [offerAll_cons]
      unfold offer at rest ⊢
      split at rest
      · rename_i fresh
        simp only [fresh, if_true, List.length_append, List.length_singleton] at rest ⊢
        omega
      · rename_i stale
        simp only [stale, if_false, Bool.false_eq_true] at rest ⊢
        omega

/-! ## Runs -/

theorem run_of_pending_nil {fuel : Nat} (h : w.pending = []) :
    run limit derive fuel w = w.out := by
  cases fuel with
  | zero => rfl
  | succ fuel => simp [run, h]

theorem mem_run {fuel : Nat} {y : α} (h : y ∈ w.out) : y ∈ run limit derive fuel w := by
  induction fuel generalizing w with
  | zero => exact h
  | succ fuel ih =>
      unfold run
      split
      · exact h
      · split
        · exact ih (mem_offerAll (w := ⟨w.out, _⟩) h)
        · exact h

theorem nodup_run {fuel : Nat} (h : w.out.Nodup) : (run limit derive fuel w).Nodup := by
  induction fuel generalizing w with
  | zero => exact h
  | succ fuel ih =>
      unfold run
      split
      · exact h
      · split
        · exact ih (nodup_offerAll h)
        · exact h

theorem length_le_run {fuel : Nat} : w.out.length ≤ (run limit derive fuel w).length := by
  induction fuel generalizing w with
  | zero => exact Nat.le_refl _
  | succ fuel ih =>
      unfold run
      split
      · exact Nat.le_refl _
      · rename_i x rest _
        split
        · exact Nat.le_trans (length_le_offerAll (w := ⟨w.out, rest⟩)) ih
        · exact Nat.le_refl _

/-- What was found, or was there to begin with without being kept, is pending or has
everything it derives kept. -/
def Expanded (derive : α → List α) (seeds : List α) (w : Worklist α) : Prop :=
  ∀ x, x ∈ w.out ∨ x ∈ seeds → x ∈ w.pending ∨ ∀ y ∈ derive x, y ∈ w.out

variable {seeds : List α}

theorem Expanded.offerAll {rest : List α} (h : Expanded derive seeds w)
    (next : w.pending = x :: rest)
    (whole : within limit (offerAll limit ⟨w.out, rest⟩ (derive x)).out.length = true) :
    Expanded derive seeds (offerAll limit ⟨w.out, rest⟩ (derive x)) := by
  have earlier : ∀ y, y ∈ w.out ∨ y ∈ seeds →
      y ∈ (Worklist.offerAll limit ⟨w.out, rest⟩ (derive x)).pending ∨
        ∀ z ∈ derive y, z ∈ (Worklist.offerAll limit ⟨w.out, rest⟩ (derive x)).out := by
    intro y old
    obtain waiting | expanded := h y old
    · rw [next] at waiting
      obtain rfl | waiting := List.mem_cons.1 waiting
      · exact .inr (offerAll_of_within whole).1
      · exact .inl (mem_pending_offerAll (w := ⟨w.out, rest⟩) waiting)
    · exact .inr fun z derived => mem_offerAll (w := ⟨w.out, rest⟩) (expanded z derived)
  rintro y (found | seed)
  · obtain old | ⟨-, pending⟩ := mem_of_mem_offerAll found
    · exact earlier y (.inl old)
    · exact .inl pending
  · exact earlier y (.inr seed)

/-- The elements a worklist starts from, and a finite universe `derive` stays in. -/
structure Bounded (derive : α → List α) (domain : Finset α) (w : Worklist α) : Prop where
  nodup : w.out.Nodup
  out : ∀ x ∈ w.out, x ∈ domain
  pending : ∀ x ∈ w.pending, x ∈ domain
  closed : ∀ x ∈ domain, ∀ y ∈ derive x, y ∈ domain

theorem Bounded.offerAll {U : Finset α} {rest : List α} (h : Bounded derive U w)
    (next : w.pending = x :: rest) :
    Bounded derive U (offerAll limit ⟨w.out, rest⟩ (derive x)) where
  nodup := nodup_offerAll h.nodup
  out y found := by
    obtain old | ⟨derived, -⟩ := mem_of_mem_offerAll found
    · exact h.out y old
    · exact h.closed x (h.pending x (next ▸ .head _)) y derived
  pending y waiting := by
    obtain old | derived := mem_pending_of_mem_offerAll waiting
    · exact h.pending y (next ▸ .tail _ old)
    · exact h.closed x (h.pending x (next ▸ .head _)) y derived
  closed := h.closed

/-- What is found is distinct, so the universe bounds it. -/
theorem Bounded.length_le {U : Finset α} (h : Bounded derive U w) :
    w.out.length ≤ U.card := by
  rw [← List.toFinset_card_of_nodup h.nodup]
  exact Finset.card_le_card fun x found => h.out x (List.mem_toFinset.1 found)

/-- The closure rule: with enough fuel, a run that stays within its limit has expanded
all it found and all it began with. -/
theorem closed_of_within {U : Finset α} {fuel : Nat} (bounded : Bounded derive U w)
    (expanded : Expanded derive seeds w)
    (enough : U.card + w.pending.length ≤ fuel + w.out.length)
    (whole : within limit (run limit derive fuel w).length = true) :
    ∀ x, x ∈ run limit derive fuel w ∨ x ∈ seeds →
      ∀ y ∈ derive x, y ∈ run limit derive fuel w := by
  induction fuel generalizing w with
  | zero =>
      have most := bounded.length_le
      have nothing : w.pending = [] := List.length_eq_zero_iff.1 (by omega)
      intro x found y derived
      obtain waiting | all := expanded x found
      · rw [nothing] at waiting
        cases waiting
      · exact all y derived
  | succ fuel ih =>
      cases next : w.pending with
      | nil =>
          rw [run_of_pending_nil next]
          intro x found
          obtain waiting | all := expanded x found
          · rw [next] at waiting
            cases waiting
          · exact all
      | cons x rest =>
          have still : within limit w.out.length = true := within_of_le length_le_run whole
          simp only [run, next, still, if_true] at whole ⊢
          refine ih (bounded.offerAll next) (expanded.offerAll next ?_) ?_ whole
          · exact within_of_le length_le_run whole
          · have balance := @offerAll_balance α _ limit ⟨w.out, rest⟩ (derive x)
            simp only [next, List.length_cons] at enough balance
            omega

/-- A run that stays within its limit is the run without one. -/
theorem run_none_of_within {fuel : Nat}
    (whole : within limit (run limit derive fuel w).length = true) :
    run none derive fuel w = run limit derive fuel w := by
  induction fuel generalizing w with
  | zero => rfl
  | succ fuel ih =>
      cases next : w.pending with
      | nil => rw [run_of_pending_nil next, run_of_pending_nil next]
      | cons x rest =>
          have still : within limit w.out.length = true := within_of_le length_le_run whole
          have unbounded : within none w.out.length = true := rfl
          simp only [run, next, still, unbounded, if_true] at whole ⊢
          have taken := offerAll_of_within (within_of_le length_le_run whole)
          rw [taken.2]
          exact ih whole

/-! ## Rounds

`run` counts rounds of its loop; a round after the loop is over changes nothing. -/

/-- One round of the loop. -/
def expand (limit : Option Nat) (derive : α → List α) (w : Worklist α) : Worklist α :=
  match w.pending with
  | [] => w
  | x :: rest =>
      if within limit w.out.length then offerAll limit ⟨w.out, rest⟩ (derive x) else w

theorem expand_of_pending_nil (h : w.pending = []) : expand limit derive w = w := by
  rw [expand, h]

theorem expand_of_pending_cons {rest : List α} (next : w.pending = x :: rest)
    (still : within limit w.out.length = true) :
    expand limit derive w = offerAll limit ⟨w.out, rest⟩ (derive x) := by
  rw [expand, next]
  exact if_pos still

theorem expand_of_not_within (past : within limit w.out.length = false) :
    expand limit derive w = w := by
  rw [expand]
  cases w.pending with
  | nil => rfl
  | cons x rest => exact if_neg (Bool.eq_false_iff.1 past)

theorem iterate_of_fixed {fuel : Nat} (fixed : expand limit derive w = w) :
    (expand limit derive)^[fuel] w = w :=
  Function.iterate_fixed fixed fuel

theorem run_eq_iterate {fuel : Nat} :
    run limit derive fuel w = ((expand limit derive)^[fuel] w).out := by
  induction fuel generalizing w with
  | zero => rfl
  | succ fuel ih =>
      rw [Function.iterate_succ_apply]
      cases next : w.pending with
      | nil =>
          have fixed : expand limit derive w = w := expand_of_pending_nil next
          rw [run_of_pending_nil next, fixed, iterate_of_fixed fixed]
      | cons x rest =>
          cases still : within limit w.out.length with
          | true =>
              rw [expand_of_pending_cons next still, ← ih]
              simp only [run, next, still, if_true]
          | false =>
              have fixed : expand limit derive w = w := expand_of_not_within still
              rw [fixed, iterate_of_fixed fixed]
              simp [run, next, still]

/-- The loop without a limit ends: over a finite universe nothing is left pending. -/
theorem pending_of_enough {U : Finset α} {fuel : Nat} (bounded : Bounded derive U w)
    (enough : U.card + w.pending.length ≤ fuel + w.out.length) :
    ((expand none derive)^[fuel] w).pending = [] := by
  induction fuel generalizing w with
  | zero =>
      have most := bounded.length_le
      exact List.length_eq_zero_iff.1 (by rw [Function.iterate_zero_apply]; omega)
  | succ fuel ih =>
      rw [Function.iterate_succ_apply]
      cases next : w.pending with
      | nil =>
          have fixed : expand none derive w = w := expand_of_pending_nil next
          rw [fixed, iterate_of_fixed fixed, next]
      | cons x rest =>
          rw [expand_of_pending_cons next rfl]
          refine ih (bounded.offerAll next) ?_
          have balance := @offerAll_balance α _ none ⟨w.out, rest⟩ (derive x)
          simp only [next, List.length_cons] at enough balance
          omega

/-- A run finds nothing but what its start derives. -/
theorem mem_run_of_closed {S : Set α} {fuel : Nat} (out : ∀ x ∈ w.out, x ∈ S)
    (pending : ∀ x ∈ w.pending, ∀ y ∈ derive x, y ∈ S)
    (closed : ∀ x ∈ S, ∀ y ∈ derive x, y ∈ S) :
    ∀ y ∈ run limit derive fuel w, y ∈ S := by
  induction fuel generalizing w with
  | zero => exact out
  | succ fuel ih =>
      cases next : w.pending with
      | nil =>
          rw [run_of_pending_nil next]
          exact out
      | cons x rest =>
          cases still : within limit w.out.length with
          | false =>
              rw [run_eq_iterate, iterate_of_fixed (expand_of_not_within still)]
              exact out
          | true =>
              simp only [run, next, still, if_true]
              have derived := pending x (next ▸ .head _)
              refine ih ?_ ?_
              · intro y found
                obtain old | ⟨new, -⟩ := mem_of_mem_offerAll found
                · exact out y old
                · exact derived y new
              · intro y waiting
                obtain old | new := mem_pending_of_mem_offerAll waiting
                · exact pending y (next ▸ .tail _ old)
                · exact closed y (derived y new)

/-! ## Limits -/

theorem offerAll_of_not_within (past : within limit w.out.length = false) :
    offerAll limit w xs = w := by
  induction xs with
  | nil => rfl
  | cons x xs ih =>
      have same : offer limit w x = w := by
        rw [offer, past, Bool.false_and]
        exact if_neg Bool.false_ne_true
      rw [offerAll_cons, same, ih]

theorem run_of_not_within {fuel : Nat} (past : within limit w.out.length = false) :
    run limit derive fuel w = w.out := by
  rw [run_eq_iterate, iterate_of_fixed (expand_of_not_within past)]

theorem prefix_offer : w.out <+: (offer limit w x).out := by
  rw [offer]
  split
  · exact List.prefix_append _ _
  · exact List.prefix_rfl

theorem prefix_offerAll : w.out <+: (offerAll limit w xs).out := by
  induction xs generalizing w with
  | nil => exact List.prefix_rfl
  | cons x xs ih => exact prefix_offer.trans ih

theorem prefix_run {fuel : Nat} : w.out <+: run limit derive fuel w := by
  induction fuel generalizing w with
  | zero => exact List.prefix_rfl
  | succ fuel ih =>
      unfold run
      split
      · exact List.prefix_rfl
      · rename_i x rest _
        split
        · exact (prefix_offerAll (w := ⟨w.out, rest⟩)).trans ih
        · exact List.prefix_rfl

theorem prefix_offerAll_none : (offerAll limit w xs).out <+: (offerAll none w xs).out := by
  induction xs generalizing w with
  | nil => exact List.prefix_rfl
  | cons x xs ih =>
      rw [offerAll_cons, offerAll_cons]
      cases still : within limit w.out.length with
      | true =>
          have same : offer none w x = offer limit w x := by
            rw [offer, offer, still]
            rfl
          rw [same]
          exact ih
      | false =>
          have stays : offer limit w x = w := by
            rw [offer, still, Bool.false_and]
            exact if_neg Bool.false_ne_true
          rw [stays, offerAll_of_not_within still]
          exact prefix_offer.trans prefix_offerAll

/-- What a limited run finds, an unlimited one finds first. -/
theorem prefix_run_none {fuel : Nat} : run limit derive fuel w <+: run none derive fuel w := by
  induction fuel generalizing w with
  | zero => exact List.prefix_rfl
  | succ fuel ih =>
      cases next : w.pending with
      | nil =>
          rw [run_of_pending_nil next, run_of_pending_nil next]
      | cons x rest =>
          cases still : within limit w.out.length with
          | false =>
              rw [run_of_not_within still]
              exact prefix_run
          | true =>
              have unlimited : within none w.out.length = true := rfl
              simp only [run, next, still, unlimited, if_true]
              cases whole : within limit (offerAll limit ⟨w.out, rest⟩ (derive x)).out.length with
              | true =>
                  rw [(offerAll_of_within whole).2]
                  exact ih
              | false =>
                  rw [run_of_not_within whole]
                  exact prefix_offerAll_none.trans prefix_run

theorem length_offer_le {l : Nat} (h : w.out.length ≤ l + 1) :
    (offer (some l) w x).out.length ≤ l + 1 := by
  rw [offer]
  split
  · rename_i fresh
    have room : w.out.length ≤ l := by
      simpa [within] using (Bool.and_eq_true_iff.1 fresh).1
    simpa using room
  · exact h

theorem length_offerAll_le {l : Nat} (h : w.out.length ≤ l + 1) :
    (offerAll (some l) w xs).out.length ≤ l + 1 := by
  induction xs generalizing w with
  | nil => exact h
  | cons x xs ih => exact ih (length_offer_le h)

/-- A limit is passed by one element at most. -/
theorem length_run_le {l fuel : Nat} (h : w.out.length ≤ l + 1) :
    (run (some l) derive fuel w).length ≤ l + 1 := by
  induction fuel generalizing w with
  | zero => exact h
  | succ fuel ih =>
      unfold run
      split
      · exact h
      · rename_i x rest _
        split
        · exact ih (length_offerAll_le (w := ⟨w.out, rest⟩) h)
        · exact h

/-- The limit is passed exactly when the unlimited run passes it; otherwise the two agree. -/
theorem run_limit {l fuel : Nat} (h : w.out.length ≤ l + 1) :
    (run (some l) derive fuel w).length ≤ l + 1 ∧
    ((run (some l) derive fuel w).length = l + 1 ↔ l < (run none derive fuel w).length) ∧
    ((run none derive fuel w).length ≤ l →
      run (some l) derive fuel w = run none derive fuel w) := by
  have most : (run (some l) derive fuel w).length ≤ l + 1 := length_run_le h
  have fewer : (run (some l) derive fuel w).length ≤ (run none derive fuel w).length :=
    prefix_run_none.length_le
  have agree : (run (some l) derive fuel w).length ≤ l →
      run none derive fuel w = run (some l) derive fuel w := fun small =>
    run_none_of_within (decide_eq_true small)
  refine ⟨most, ⟨fun full => by omega, fun more => ?_⟩, fun small => (agree ?_).symm⟩
  · by_contra short
    have small : (run (some l) derive fuel w).length ≤ l := by omega
    rw [agree small] at more
    omega
  · exact fewer.trans small

end Worklist

end Hx.Library
