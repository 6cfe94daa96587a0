import Hx.Java.Long
import Hx.Library.Bucket
import Hx.Policy.Decide

/-!
# The rate limit and the budget

A `long` is an `Int64`, so every operation below wraps as the source's does. Tokens are
counted in millionths of a request; a check at a reading of the clock refills, then spends
or answers why not. The clock is read by the caller.
-/

namespace Hx.Policy

open Hx.Java Hx.Library

/-- `MAX_RATE`. -/
def maxRate : Int64 := 10000

/-- `ONE_REQUEST`. -/
def oneRequest : Int64 := 1000000

structure Limiter where
  ratePerSecond : Int64
  maxRequests : Int64
  burst : Int64
  capacityMicro : Int64
  fullRefillUs : Int64
  tokensMicro : Int64
  lastRefillUs : Int64
  issued : Int64

namespace Limiter

/-- The constructor, with the text of what it throws. -/
def new (nowUs ratePerSecond maxRequests burst : Int64) : Except JString Limiter :=
  if ratePerSecond < 1 then
    .error (js "limit.rate_rps must be at least 1, got " ++ longText ratePerSecond)
  else if maxRate < ratePerSecond then
    .error (js "limit.rate_rps above the " ++ longText maxRate ++ js " ceiling: " ++
      longText ratePerSecond)
  else if maxRequests < 0 then
    .error (js "limit.max_requests must not be negative, got " ++ longText maxRequests)
  else if burst < 0 then
    .error (js "limit.rate_burst must not be negative, got " ++ longText burst)
  else if maxRate < burst then
    .error (js "limit.rate_burst above the " ++ longText maxRate ++ js " ceiling: " ++
      longText burst)
  else
    let capacityMicro := max oneRequest (burst * oneRequest)
    .ok {
      ratePerSecond, maxRequests, burst, capacityMicro
      fullRefillUs := capacityMicro / ratePerSecond + 1
      tokensMicro := capacityMicro
      lastRefillUs := nowUs
      issued := 0 }

/-- The elapsed time that counts. -/
def elapsed (l : Limiter) (now : Int64) : Int64 :=
  if l.fullRefillUs < now - l.lastRefillUs then l.fullRefillUs else now - l.lastRefillUs

def refilled (l : Limiter) (now : Int64) : Int64 :=
  l.tokensMicro + l.elapsed now * l.ratePerSecond

def refill (l : Limiter) (now : Int64) : Limiter :=
  if 0 < now - l.lastRefillUs then
    { l with
      tokensMicro := if l.capacityMicro < l.refilled now then l.capacityMicro else l.refilled now
      lastRefillUs := now }
  else l

def retryUs (l : Limiter) : Int64 :=
  (oneRequest - l.tokensMicro + l.ratePerSecond - 1) / l.ratePerSecond

def rateText (l : Limiter) : JString :=
  js "rate limit " ++ longText l.ratePerSecond ++ js "/s (burst " ++ longText l.burst ++
    js "): no token available"

def budgetText (l : Limiter) : JString :=
  js "run budget spent: " ++ longText l.issued ++ js " of " ++ longText l.maxRequests ++
    js " requests issued"

def spend (l : Limiter) : Limiter :=
  { l with tokensMicro := l.tokensMicro - oneRequest, issued := l.issued + 1 }

/-- `check`, at a reading of the clock. -/
def check (l : Limiter) (now : Int64) : Decision × Limiter :=
  let m := l.refill now
  if m.tokensMicro < oneRequest then (.rateLimited m.retryUs m.rateText, m)
  else if m.maxRequests ≤ m.issued then (.deny (js "budget_exhausted") m.budgetText, m)
  else (.allow, m.spend)

/-- The checks at the readings of a clock, in order. -/
def run (l : Limiter) : List Int64 → List (Int64 × Decision) × Limiter
  | [] => ([], l)
  | now :: later =>
      let rest := run (l.check now).2 later
      ((now, (l.check now).1) :: rest.1, rest.2)

/-! ## What a limiter keeps -/

/-- The numbers are in the range the constructor checks, and nothing was spent twice. -/
structure Sound (l : Limiter) : Prop where
  rate : 1 ≤ l.ratePerSecond.toInt ∧ l.ratePerSecond.toInt ≤ 10000
  capacity : 1000000 ≤ l.capacityMicro.toInt ∧ l.capacityMicro.toInt ≤ 10000000000
  full : l.fullRefillUs.toInt = l.capacityMicro.toInt / l.ratePerSecond.toInt + 1
  tokens : 0 ≤ l.tokensMicro.toInt ∧ l.tokensMicro.toInt ≤ l.capacityMicro.toInt
  since : 0 ≤ l.lastRefillUs.toInt
  issued : 0 ≤ l.issued.toInt ∧ l.issued.toInt ≤ l.maxRequests.toInt

/-- What is fixed when a limiter is made. -/
structure Alike (l m : Limiter) : Prop where
  rate : m.ratePerSecond = l.ratePerSecond
  requests : m.maxRequests = l.maxRequests
  burst : m.burst = l.burst
  capacity : m.capacityMicro = l.capacityMicro
  full : m.fullRefillUs = l.fullRefillUs

theorem Alike.refl (l : Limiter) : l.Alike l := ⟨rfl, rfl, rfl, rfl, rfl⟩

theorem Alike.trans {l m n : Limiter} (h : l.Alike m) (h' : m.Alike n) : l.Alike n :=
  ⟨h'.rate.trans h.rate, h'.requests.trans h.requests, h'.burst.trans h.burst,
    h'.capacity.trans h.capacity, h'.full.trans h.full⟩

section Constructor

variable {nowUs ratePerSecond maxRequests burst : Int64} {l : Limiter}

/-- What the constructor accepts, and what it makes. -/
theorem new_eq_ok_iff : new nowUs ratePerSecond maxRequests burst = .ok l ↔
    (1 ≤ ratePerSecond.toInt ∧ ratePerSecond.toInt ≤ 10000 ∧ 0 ≤ maxRequests.toInt ∧
      0 ≤ burst.toInt ∧ burst.toInt ≤ 10000) ∧
    l = {
      ratePerSecond, maxRequests, burst
      capacityMicro := max oneRequest (burst * oneRequest)
      fullRefillUs := max oneRequest (burst * oneRequest) / ratePerSecond + 1
      tokensMicro := max oneRequest (burst * oneRequest)
      lastRefillUs := nowUs
      issued := 0 } := by
  have one : (1 : Int64).toInt = 1 := rfl
  have zero : (0 : Int64).toInt = 0 := rfl
  have top : maxRate.toInt = 10000 := rfl
  rw [new]
  simp only [Int64.lt_iff_toInt_lt, one, zero, top]
  split
  · exact iff_of_false nofun fun h => by omega
  split
  · exact iff_of_false nofun fun h => by omega
  split
  · exact iff_of_false nofun fun h => by omega
  split
  · exact iff_of_false nofun fun h => by omega
  split
  · exact iff_of_false nofun fun h => by omega
  · rw [Except.ok.injEq, eq_comm]
    exact (and_iff_right (by omega)).symm

theorem capacity_new (low : 0 ≤ burst.toInt) (high : burst.toInt ≤ 10000) :
    (max oneRequest (burst * oneRequest)).toInt = max 1 burst.toInt * 1000000 := by
  have million : oneRequest.toInt = 1000000 := rfl
  have exact_ : (burst * oneRequest).toInt = burst.toInt * oneRequest.toInt := by
    apply toInt_mul_fits
    rw [million, Fits]
    omega
  rw [toInt_max, exact_, million]
  omega

theorem quotient_bounds {c r : Int} (pos : 1 ≤ r) (nonneg : 0 ≤ c) :
    0 ≤ c / r ∧ c / r ≤ c :=
  ⟨Int.ediv_nonneg nonneg (Int.le_trans (by decide) pos), Int.ediv_le_self r nonneg⟩

theorem sound_new (start : 0 ≤ nowUs.toInt)
    (made : new nowUs ratePerSecond maxRequests burst = .ok l) : l.Sound := by
  obtain ⟨⟨low, high, requests, bottom, top⟩, rfl⟩ := new_eq_ok_iff.1 made
  have capacity := capacity_new bottom top
  have one : (1 : Int64).toInt = 1 := rfl
  have quotient := toInt_div_of_pos (a := max oneRequest (burst * oneRequest))
    (b := ratePerSecond) (by omega) (by omega)
  have bounds := quotient_bounds (c := (max oneRequest (burst * oneRequest)).toInt) low
    (by omega)
  refine ⟨⟨low, high⟩, ⟨?_, ?_⟩, ?_, ⟨?_, ?_⟩, start, ⟨Int.le_refl 0, requests⟩⟩
  · rw [capacity]
    omega
  · rw [capacity]
    omega
  · rw [toInt_add_fits, quotient, one]
    rw [quotient, one, Fits]
    omega
  · rw [capacity]
    omega
  · exact Int.le_refl _

end Constructor

/-! ## The refill -/

section Refill

variable {l : Limiter} {now : Int64}

/-- Every `long` the refill computes is the exact one. -/
structure Exact (l : Limiter) (now : Int64) : Prop where
  elapsed : (now - l.lastRefillUs).toInt = now.toInt - l.lastRefillUs.toInt
  product : (l.elapsed now * l.ratePerSecond).toInt =
    (l.elapsed now).toInt * l.ratePerSecond.toInt
  sum : (l.refilled now).toInt =
    l.tokensMicro.toInt + (l.elapsed now).toInt * l.ratePerSecond.toInt

theorem Sound.full_le (sound : l.Sound) : 1 ≤ l.fullRefillUs.toInt ∧
    l.fullRefillUs.toInt ≤ 10000000001 := by
  obtain ⟨⟨low, _⟩, ⟨bottom, top⟩, full, _⟩ := sound
  have bounds := quotient_bounds (c := l.capacityMicro.toInt) low (by omega)
  omega

theorem Sound.elapsed_eq (sound : l.Sound) (later : l.lastRefillUs.toInt ≤ now.toInt) :
    (now - l.lastRefillUs).toInt = now.toInt - l.lastRefillUs.toInt ∧
      (l.elapsed now).toInt =
        min l.fullRefillUs.toInt (now.toInt - l.lastRefillUs.toInt) := by
  have since := sound.since
  have difference : (now - l.lastRefillUs).toInt = now.toInt - l.lastRefillUs.toInt := by
    apply toInt_sub_fits
    have fits := fits_toInt now
    rw [Fits] at fits ⊢
    omega
  refine ⟨difference, ?_⟩
  rw [elapsed]
  simp only [Int64.lt_iff_toInt_lt, difference]
  split
  · omega
  · omega

theorem Sound.exact (sound : l.Sound) (later : l.lastRefillUs.toInt ≤ now.toInt) :
    l.Exact now := by
  obtain ⟨difference, elapsed⟩ := sound.elapsed_eq later
  obtain ⟨low, high⟩ := sound.full_le
  obtain ⟨⟨slow, fast⟩, ⟨_, top⟩, _, ⟨empty, full⟩, _⟩ := sound
  have short : 0 ≤ (l.elapsed now).toInt ∧ (l.elapsed now).toInt ≤ 10000000001 := by omega
  have nonneg := Int.mul_nonneg short.1 (Int.le_trans (by decide) slow)
  have bounded := Int.mul_le_mul short.2 fast (Int.le_trans (by decide) slow) (by decide)
  have product : (l.elapsed now * l.ratePerSecond).toInt =
      (l.elapsed now).toInt * l.ratePerSecond.toInt := by
    apply toInt_mul_fits
    rw [Fits]
    omega
  refine ⟨difference, product, ?_⟩
  rw [refilled, toInt_add_fits, product]
  rw [product, Fits]
  omega

/-- The refill is exact: the tokens of the whole time since, up to the capacity. -/
theorem Sound.refill_eq (sound : l.Sound) (later : l.lastRefillUs.toInt ≤ now.toInt) :
    (l.refill now).tokensMicro.toInt = min l.capacityMicro.toInt
        (l.tokensMicro.toInt +
          (now.toInt - l.lastRefillUs.toInt) * l.ratePerSecond.toInt) ∧
      (l.refill now).lastRefillUs.toInt = now.toInt := by
  obtain ⟨difference, elapsed⟩ := sound.elapsed_eq later
  have sum := (sound.exact later).sum
  have zero : (0 : Int64).toInt = 0 := rfl
  obtain ⟨⟨slow, _⟩, _, full, ⟨empty, fits⟩, _⟩ := sound
  rw [refill]
  simp only [Int64.lt_iff_toInt_lt, difference, zero]
  split
  · rename_i passed
    refine ⟨?_, rfl⟩
    simp only [sum, elapsed]
    rcases Int.le_total (now.toInt - l.lastRefillUs.toInt) l.fullRefillUs.toInt with short | long
    · rw [Int.min_eq_right short]
      split
      · rename_i over_
        exact (Int.min_eq_left (Int.le_of_lt over_)).symm
      · rename_i under
        rw [sum, elapsed, Int.min_eq_right short]
        exact (Int.min_eq_right (Int.not_lt.1 under)).symm
    · -- past a full refill both are the capacity
      have enough : l.capacityMicro.toInt < l.fullRefillUs.toInt * l.ratePerSecond.toInt := by
        rw [full]
        exact Int.lt_ediv_add_one_mul_self _ (by omega)
      have more := Int.mul_le_mul_of_nonneg_right long (Int.le_trans (by decide) slow)
      rw [Int.min_eq_left long, if_pos (by omega)]
      omega
  · rename_i still
    have same : now.toInt = l.lastRefillUs.toInt := by omega
    rw [same, Int.sub_self, Int.zero_mul]
    omega

theorem refill_alike (l : Limiter) (now : Int64) : l.Alike (l.refill now) := by
  rw [refill]
  split
  · exact ⟨rfl, rfl, rfl, rfl, rfl⟩
  · exact .refl l

theorem refill_issued (l : Limiter) (now : Int64) : (l.refill now).issued = l.issued := by
  rw [refill]
  split
  · rfl
  · rfl

theorem Sound.refill (sound : l.Sound) (later : l.lastRefillUs.toInt ≤ now.toInt) :
    (l.refill now).Sound := by
  obtain ⟨tokens, since⟩ := sound.refill_eq later
  obtain ⟨rate, requests, burst, capacity, full⟩ := refill_alike l now
  have earned : 0 ≤ (now.toInt - l.lastRefillUs.toInt) * l.ratePerSecond.toInt :=
    Int.mul_nonneg (by omega) (Int.le_trans (by decide) sound.rate.1)
  have issued := refill_issued l now
  obtain ⟨rates, capacities, fulls, ⟨empty, fits⟩, sinces, issues⟩ := sound
  constructor
  · rw [rate]
    exact rates
  · rw [capacity]
    exact capacities
  · rw [full, capacity, rate]
    exact fulls
  · rw [tokens, capacity]
    omega
  · rw [since]
    omega
  · rw [issued, requests]
    exact issues

end Refill

end Limiter

end Hx.Policy
