import Mathlib.Algebra.Order.Ring.Nat
import Mathlib.Data.Nat.Init

/-!
# Token buckets

A bucket fills at a rate, up to its capacity, and what is taken from it costs a fixed
number of tokens. Whoever takes, and whenever, no stretch of time sees more taken than
the capacity and what the stretch itself fills pay for.
-/

namespace Hx.Library

/-- Tokens that fit the capacity, counted up to an instant. -/
structure Bucket (capacity : ℕ) where
  tokens : ℕ
  fits : tokens ≤ capacity
  since : ℕ

namespace Bucket

variable {capacity : ℕ}

def full (capacity now : ℕ) : Bucket capacity := ⟨capacity, Nat.le_refl _, now⟩

/-- What was earned since is put in, and what does not fit is lost. -/
def fill (rate now : ℕ) (b : Bucket capacity) : Bucket capacity :=
  ⟨min capacity (b.tokens + (now - b.since) * rate), Nat.min_le_left _ _, now⟩

def take (cost : ℕ) (b : Bucket capacity) : Bucket capacity :=
  ⟨b.tokens - cost, (Nat.sub_le _ _).trans b.fits, b.since⟩

/-- A run at instants that do not go back: at each of them the bucket is filled, and taken
from or not. Nothing is said of when it is taken from, except that there is enough. -/
inductive Runs (rate cost : ℕ) : Bucket capacity → List (ℕ × Bool) → Bucket capacity → Prop where
  | done (b : Bucket capacity) : Runs rate cost b [] b
  | took {b c : Bucket capacity} {now : ℕ} {later : List (ℕ × Bool)} :
      b.since ≤ now → cost ≤ (b.fill rate now).tokens →
      Runs rate cost ((b.fill rate now).take cost) later c →
      Runs rate cost b ((now, true) :: later) c
  | left {b c : Bucket capacity} {now : ℕ} {later : List (ℕ × Bool)} :
      b.since ≤ now → Runs rate cost (b.fill rate now) later c →
      Runs rate cost b ((now, false) :: later) c

/-- How often a run took between two instants, both included. -/
def taken (low high : ℕ) : List (ℕ × Bool) → ℕ
  | [] => 0
  | (now, took) :: later =>
      (if low ≤ now ∧ now ≤ high ∧ took = true then 1 else 0) + taken low high later

/-- The tokens that can still be taken between two instants. -/
def credit (rate low high : ℕ) (b : Bucket capacity) : ℕ :=
  if high < b.since then 0
  else if b.since < low then capacity + (high - low) * rate
  else b.tokens + (high - b.since) * rate

section Credit

variable {rate cost low high now : ℕ} {b c : Bucket capacity} {events : List (ℕ × Bool)}

theorem credit_le : b.credit rate low high ≤ capacity + (high - low) * rate := by
  rw [credit]
  split
  · exact Nat.zero_le _
  split
  · exact Nat.le_refl _
  · rename_i _ within
    have shorter : (high - b.since) * rate ≤ (high - low) * rate :=
      Nat.mul_le_mul_right _ (Nat.sub_le_sub_left (Nat.not_lt.1 within) _)
    exact Nat.add_le_add b.fits shorter

/-- Inside the stretch, filling turns credit into tokens. -/
theorem fill_credit (later : b.since ≤ now) (start : low ≤ now) (stop : now ≤ high) :
    (b.fill rate now).tokens + (high - now) * rate ≤ b.credit rate low high := by
  have filled : (b.fill rate now).tokens = min capacity (b.tokens + (now - b.since) * rate) := rfl
  rw [credit, if_neg (Nat.not_lt.2 (later.trans stop)), filled]
  split
  · have shorter : (high - now) * rate ≤ (high - low) * rate :=
      Nat.mul_le_mul_right _ (Nat.sub_le_sub_left start _)
    exact Nat.add_le_add (Nat.min_le_left _ _) shorter
  · have split_ : (now - b.since) * rate + (high - now) * rate = (high - b.since) * rate := by
      rw [← Nat.add_mul, Nat.add_comm, Nat.sub_add_sub_cancel stop later]
    have earned := Nat.min_le_right capacity (b.tokens + (now - b.since) * rate)
    omega

/-- A step spends no more credit than there was. -/
theorem step_credit {took : Bool} (later : b.since ≤ now)
    (next : took = true ∧ cost ≤ (b.fill rate now).tokens ∧ c = (b.fill rate now).take cost ∨
      took = false ∧ c = b.fill rate now) :
    (if low ≤ now ∧ now ≤ high ∧ took = true then 1 else 0) * cost + c.credit rate low high ≤
      b.credit rate low high := by
  have since : c.since = now := by
    rcases next with ⟨_, _, rfl⟩ | ⟨_, rfl⟩
    · rfl
    · rfl
  rcases Nat.lt_or_ge high now with past | stop
  · rw [if_neg fun h => Nat.not_le.2 past h.2.1, Nat.zero_mul, credit, since, if_pos past]
    exact Nat.zero_le _
  rcases Nat.lt_or_ge now low with before | start
  · rw [if_neg fun h => Nat.not_le.2 before h.1, Nat.zero_mul, Nat.zero_add, credit, since,
      if_neg (Nat.not_lt.2 stop), if_pos before, credit, if_neg (Nat.not_lt.2 (later.trans stop)),
      if_pos (Nat.lt_of_le_of_lt later before)]
  · have paid : (b.fill rate now).tokens + (high - now) * rate ≤ b.credit rate low high :=
      fill_credit later start stop
    rw [credit, since, if_neg (Nat.not_lt.2 stop), if_neg (Nat.not_lt.2 start)]
    rcases next with ⟨rfl, enough, rfl⟩ | ⟨rfl, rfl⟩
    · have left_ : ((b.fill rate now).take cost).tokens = (b.fill rate now).tokens - cost := rfl
      rw [if_pos ⟨start, stop, rfl⟩, Nat.one_mul, left_]
      omega
    · rw [if_neg fun h => Bool.noConfusion h.2.2, Nat.zero_mul, Nat.zero_add]
      exact paid

theorem Runs.taken_le_credit (run : Runs rate cost b events c) :
    taken low high events * cost ≤ b.credit rate low high := by
  induction run with
  | done b => exact (Nat.zero_mul cost).symm ▸ Nat.zero_le _
  | took later enough _ ih =>
      have step : _ + credit rate low high (take cost (fill rate _ _)) ≤ _ :=
        step_credit later (.inl ⟨rfl, enough, rfl⟩)
      rw [taken, Nat.add_mul]
      omega
  | left later _ ih =>
      have step : _ * cost + credit rate low high (fill rate _ _) ≤ _ :=
        step_credit later (.inr ⟨rfl, rfl⟩)
      rw [taken, Nat.add_mul]
      omega

/-- The bound on every stretch of a run. -/
theorem Runs.taken_mul_le (low high : ℕ) (run : Runs rate cost b events c) :
    taken low high events * cost ≤ capacity + (high - low) * rate :=
  run.taken_le_credit.trans credit_le

end Credit

/-! ## Waiting -/

section Wait

variable {rate cost now : ℕ} {b : Bucket capacity}

/-- How long until there is enough, rounded up to an instant. -/
def wait (rate cost : ℕ) (b : Bucket capacity) : ℕ := (cost - b.tokens + rate - 1) / rate

/-- There is enough once the wait is over, and not before. -/
theorem enough_iff (pos : 0 < rate) (fits : cost ≤ capacity) :
    cost ≤ (b.fill rate now).tokens ↔ b.wait rate cost ≤ now - b.since := by
  have filled : (b.fill rate now).tokens = min capacity (b.tokens + (now - b.since) * rate) := rfl
  have earned : rate * (now - b.since) = (now - b.since) * rate := Nat.mul_comm _ _
  rw [filled, Nat.le_min, and_iff_right fits, wait, Nat.div_le_iff_le_mul_add_pred pos, earned]
  omega

/-- Where there is not enough, the wait is not over at once. -/
theorem wait_pos (pos : 0 < rate) (short : b.tokens < cost) : 0 < b.wait rate cost := by
  rw [wait]
  refine Nat.div_pos ?_ pos
  omega

end Wait

end Bucket

end Hx.Library
