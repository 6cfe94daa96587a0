import Hx.Policy.Window

/-!
# The wait a limiter asks for

A check that finds no token answers how long the bucket takes to earn one. The answer is the
bucket's own wait: asked again before it is over, the limiter has no token still; from then on
it has one.
-/

namespace Hx.Policy

open Hx.Java Hx.Library

namespace Limiter

section Wait

variable {l : Limiter} {now later : Int64}

/-- A check is denied for the rate when the refill leaves less than a request. -/
theorem check_rate_limited_iff (l : Limiter) (now : Int64) :
    (l.check now).1.errorClass = some (js "rate_limited") ↔
      (l.refill now).tokensMicro.toInt < 1000000 := by
  have million : oneRequest.toInt = 1000000 := rfl
  have other : js "budget_exhausted" ≠ js "rate_limited" := by decide
  rw [check]
  simp only [Int64.lt_iff_toInt_lt, million]
  split
  · rename_i short
    exact iff_of_true rfl short
  · rename_i enough
    refine iff_of_false ?_ enough
    split
    · exact fun same => other (Option.some.inj same)
    · exact fun same => Option.some_ne_none _ same.symm

/-- Then it leaves the refilled limiter, and answers with its wait. -/
theorem check_of_short (short : (l.refill now).tokensMicro.toInt < 1000000) :
    (l.check now).2 = l.refill now ∧
      (l.check now).1.retryAfterUs = (l.refill now).retryUs := by
  have million : oneRequest.toInt = 1000000 := rfl
  have less : (l.refill now).tokensMicro < oneRequest :=
    Int64.lt_iff_toInt_lt.2 (million ▸ short)
  rw [check, if_pos less]
  exact ⟨rfl, rfl⟩

/-- The bucket a sound limiter is. -/
def Sound.bucket (sound : l.Sound) : Bucket l.capacityMicro.toInt.toNat where
  tokens := l.tokensMicro.toInt.toNat
  fits := Int.toNat_le_toNat sound.tokens.2
  since := l.lastRefillUs.toInt.toNat

theorem Sound.shows (sound : l.Sound) : l.Shows sound.bucket where
  tokens := (Int.toNat_of_nonneg sound.tokens.1).symm
  since := (Int.toNat_of_nonneg sound.since).symm
  capacity := (Int.toNat_of_nonneg ((by decide : (0 : Int) ≤ 1000000).trans
    sound.capacity.1)).symm

/-- The wait is the bucket's. -/
theorem Sound.retryUs_eq (sound : l.Sound) (short : l.tokensMicro.toInt < 1000000) :
    l.retryUs.toInt =
      (sound.bucket.wait l.ratePerSecond.toInt.toNat 1000000 : ℕ) := by
  have million : oneRequest.toInt = 1000000 := rfl
  have one : (1 : Int64).toInt = 1 := rfl
  have held := sound.shows.tokens
  obtain ⟨⟨slow, fast⟩, -, -, ⟨empty, -⟩, -⟩ := id sound
  have missing : (oneRequest - l.tokensMicro).toInt = 1000000 - l.tokensMicro.toInt := by
    rw [toInt_sub_fits, million]
    rw [million, Fits]
    omega
  have sum : (oneRequest - l.tokensMicro + l.ratePerSecond).toInt =
      1000000 - l.tokensMicro.toInt + l.ratePerSecond.toInt := by
    rw [toInt_add_fits, missing]
    rw [missing, Fits]
    omega
  have dividend : (oneRequest - l.tokensMicro + l.ratePerSecond - 1).toInt =
      ((1000000 - sound.bucket.tokens + l.ratePerSecond.toInt.toNat - 1 : ℕ) : Int) := by
    rw [toInt_sub_fits, sum, one]
    · omega
    · rw [sum, one, Fits]
      omega
  have rate : l.ratePerSecond.toInt = (l.ratePerSecond.toInt.toNat : ℕ) := by omega
  rw [retryUs, toInt_div_of_pos (by omega) (by omega), dividend, Bucket.wait, Int.natCast_ediv,
    ← rate]

/-- Asked again at a later reading, a limiter with less than a request has one once its wait
is over. -/
theorem Sound.still_short_iff (sound : l.Sound) (short : l.tokensMicro.toInt < 1000000)
    (since : l.lastRefillUs.toInt ≤ later.toInt) :
    (l.refill later).tokensMicro.toInt < 1000000 ↔
      later.toInt < l.lastRefillUs.toInt + l.retryUs.toInt := by
  have speed : l.ratePerSecond.toInt = (l.ratePerSecond.toInt.toNat : ℕ) := by
    have slow := sound.rate.1
    omega
  have refilled := (sound.shows.refill sound since speed).tokens
  have counted := sound.shows.since
  have pos : 0 < l.ratePerSecond.toInt.toNat := by
    have slow := sound.rate.1
    omega
  have room : 1000000 ≤ l.capacityMicro.toInt.toNat := by
    have low := sound.capacity.1
    omega
  have enough : 1000000 ≤ (sound.bucket.fill l.ratePerSecond.toInt.toNat later.toInt.toNat).tokens ↔
      sound.bucket.wait l.ratePerSecond.toInt.toNat 1000000 ≤
        later.toInt.toNat - sound.bucket.since := Bucket.enough_iff pos room
  rw [sound.retryUs_eq short, refilled]
  omega

end Wait

section Run

variable {start ratePerSecond maxRequests burst now : Int64} {l : Limiter} {past : List Int64}

/-- After every history of checks, a denial for the rate comes with a positive wait, and a
check at any later reading, with none in between, is denied for the rate exactly while the
wait lasts. -/
theorem retry_after_exact (made : new start ratePerSecond maxRequests burst = .ok l)
    (clock : Readings start (past ++ [now]))
    (denied : ((l.run past).2.check now).1.errorClass = some (js "rate_limited")) :
    1 ≤ ((l.run past).2.check now).1.retryAfterUs.toInt ∧
    ∀ later : Int64, now.toInt ≤ later.toInt →
      (((l.run (past ++ [now])).2.check later).1.errorClass = some (js "rate_limited") ↔
        later.toInt < now.toInt + ((l.run past).2.check now).1.retryAfterUs.toInt) := by
  have sound := sound_new clock.1 made
  have since : l.lastRefillUs = start := by rw [(new_eq_ok_iff.1 made).2]
  have clock' : Readings l.lastRefillUs (past ++ [now]) := since ▸ clock
  obtain ⟨reached, last⟩ := sound.run_reached clock'
  have short := (check_rate_limited_iff _ _).1 denied
  obtain ⟨next, wait⟩ := check_of_short short
  have kept := reached.refill last
  have instant := (reached.refill_eq last).2
  have run : (l.run (past ++ [now])).2 = (l.run past).2.refill now := by
    rw [run_append]
    exact next
  rw [wait, run, ← instant]
  constructor
  · have pos : 0 < ((l.run past).2.refill now).ratePerSecond.toInt.toNat := by
      have slow := kept.rate.1
      omega
    have held := kept.shows.tokens
    have few : kept.bucket.tokens < 1000000 := by omega
    have positive := Bucket.wait_pos pos few
    rw [kept.retryUs_eq short]
    omega
  · intro later after
    rw [check_rate_limited_iff]
    exact kept.still_short_iff short after

end Run

/-- The third request of three at once waits for the fifth of a second that earns it. -/
theorem paced_waits :
    ((paced.run [0, 0]).2.check 0).1.retryAfterUs = 200000 ∧
    ((paced.run [0, 0, 0]).2.check 199999).1.errorClass = some (js "rate_limited") ∧
    ((paced.run [0, 0, 0]).2.check 200000).1.errorClass ≠ some (js "rate_limited") := by
  have made : new 0 5 3 2 = .ok paced := rfl
  have clock : Readings 0 ([0, 0] ++ [0]) := by decide
  have denied : ((paced.run [0, 0]).2.check 0).1.errorClass = some (js "rate_limited") := rfl
  obtain ⟨-, still⟩ := retry_after_exact made clock denied
  exact ⟨rfl, (still 199999 (by decide)).2 (by decide),
    fun limited => absurd ((still 200000 (by decide)).1 limited) (by decide)⟩

end Limiter

end Hx.Policy
