import Hx.Policy.Limiter

/-!
# What a run of checks allows

The limiter is a bucket of millionths of a request: a check fills it and may take one
request out. So every window sees at most the burst and what the window itself earns, and
the whole run at most the budget.
-/

namespace Hx.Policy

open Hx.Java Hx.Library

namespace Limiter

/-! ## One check -/

section Check

variable {l : Limiter} {now : Int64} {capacity rate : ℕ} {b : Bucket capacity}

/-- A check refills, and spends where there is a token and budget left. -/
theorem check_cases (l : Limiter) (now : Int64) :
    ((l.check now).1.allowed = true ∧ oneRequest.toInt ≤ (l.refill now).tokensMicro.toInt ∧
      (l.refill now).issued.toInt < (l.refill now).maxRequests.toInt ∧
      (l.check now).2 = (l.refill now).spend) ∨
    ((l.check now).1.allowed = false ∧ (l.check now).2 = l.refill now) := by
  rw [check]
  simp only [Int64.lt_iff_toInt_lt, Int64.le_iff_toInt_le]
  split
  · exact .inr ⟨rfl, rfl⟩
  split
  · exact .inr ⟨rfl, rfl⟩
  · rename_i enough within
    exact .inl ⟨rfl, Int.not_lt.1 enough, Int.not_le.1 within, rfl⟩

theorem check_alike (l : Limiter) (now : Int64) : l.Alike (l.check now).2 := by
  have alike := refill_alike l now
  rcases check_cases l now with ⟨_, _, _, next⟩ | ⟨_, next⟩
  · rw [next]
    exact alike.trans ⟨rfl, rfl, rfl, rfl, rfl⟩
  · rw [next]
    exact alike

theorem spend_tokens (enough : oneRequest.toInt ≤ l.tokensMicro.toInt) :
    l.spend.tokensMicro.toInt = l.tokensMicro.toInt - 1000000 := by
  have million : oneRequest.toInt = 1000000 := rfl
  have fits := fits_toInt l.tokensMicro
  apply toInt_sub_fits
  rw [million] at enough ⊢
  rw [Fits] at fits ⊢
  omega

theorem spend_issued (within : l.issued.toInt < l.maxRequests.toInt) :
    l.spend.issued.toInt = l.issued.toInt + 1 := by
  have one : (1 : Int64).toInt = 1 := rfl
  have fits := fits_toInt l.maxRequests
  have fits' := fits_toInt l.issued
  apply toInt_add_fits
  rw [one]
  rw [Fits] at fits fits' ⊢
  omega

/-- Whatever the clock, a check that allows is counted and leaves the budget kept. -/
theorem check_issued (now : Int64) (kept : l.issued.toInt ≤ l.maxRequests.toInt) :
    (l.check now).2.issued.toInt =
        l.issued.toInt + (if (l.check now).1.allowed = true then 1 else 0) ∧
      (l.check now).2.issued.toInt ≤ (l.check now).2.maxRequests.toInt := by
  have issued := refill_issued l now
  have requests := (refill_alike l now).requests
  rcases check_cases l now with ⟨allowed, _, within, next⟩ | ⟨denied, next⟩
  · have spent := spend_issued within
    have same : (l.refill now).spend.maxRequests = (l.refill now).maxRequests := rfl
    rw [allowed, next, same, spent, issued, if_pos rfl]
    rw [issued] at within
    exact ⟨rfl, within⟩
  · rw [denied, next, issued, requests, if_neg Bool.false_ne_true, Int.add_zero]
    exact ⟨rfl, kept⟩

theorem Sound.check (sound : l.Sound) (later : l.lastRefillUs.toInt ≤ now.toInt) :
    (l.check now).2.Sound := by
  have refilled := sound.refill later
  rcases check_cases l now with ⟨_, enough, within, next⟩ | ⟨_, next⟩
  · rw [next]
    have million : oneRequest.toInt = 1000000 := rfl
    have tokens := spend_tokens enough
    have issued := spend_issued within
    obtain ⟨rates, capacities, fulls, tokens_, sinces, issues⟩ := refilled
    refine ⟨rates, capacities, fulls, ?_, sinces, ?_⟩
    · rw [tokens]
      have same : (l.refill now).spend.capacityMicro = (l.refill now).capacityMicro := rfl
      rw [same]
      omega
    · rw [issued]
      have same : (l.refill now).spend.maxRequests = (l.refill now).maxRequests := rfl
      rw [same]
      omega
  · rw [next]
    exact refilled

theorem Sound.check_since (sound : l.Sound) (later : l.lastRefillUs.toInt ≤ now.toInt) :
    (l.check now).2.lastRefillUs = now := by
  have since := Int64.toInt_inj.1 (sound.refill_eq later).2
  rcases check_cases l now with ⟨_, _, _, next⟩ | ⟨_, next⟩
  · rw [next]
    exact since
  · rw [next]
    exact since

/-! ## The limiter as a bucket -/

/-- The bucket holds what the limiter counts. -/
structure Shows (l : Limiter) (b : Bucket capacity) : Prop where
  tokens : l.tokensMicro.toInt = b.tokens
  since : l.lastRefillUs.toInt = b.since
  capacity : l.capacityMicro.toInt = capacity

theorem Shows.refill (shows_ : l.Shows b) (sound : l.Sound)
    (later : l.lastRefillUs.toInt ≤ now.toInt) (speed : l.ratePerSecond.toInt = rate) :
    (l.refill now).Shows (b.fill rate now.toInt.toNat) := by
  obtain ⟨tokens, since⟩ := sound.refill_eq later
  obtain ⟨held, counted, top⟩ := shows_
  have nonneg := sound.since
  have instant : now.toInt = (now.toInt.toNat : Int) := by omega
  have passed : now.toInt - l.lastRefillUs.toInt = ((now.toInt.toNat - b.since : ℕ) : Int) := by
    omega
  refine ⟨?_, since.trans instant, ?_⟩
  · have filled : (b.fill rate now.toInt.toNat).tokens =
        min capacity (b.tokens + (now.toInt.toNat - b.since) * rate) := rfl
    have earned := Int.natCast_mul (now.toInt.toNat - b.since) rate
    rw [tokens, filled, held, top, speed, passed, ← earned]
    omega
  · rw [(refill_alike l now).capacity]
    exact top

/-- A check is a step of the bucket: filled, and taken from where it allows. -/
theorem Shows.check (shows_ : l.Shows b) (sound : l.Sound)
    (later : l.lastRefillUs.toInt ≤ now.toInt) (speed : l.ratePerSecond.toInt = rate) :
    ((l.check now).1.allowed = true ∧ 1000000 ≤ (b.fill rate now.toInt.toNat).tokens ∧
      (l.check now).2.Shows ((b.fill rate now.toInt.toNat).take 1000000)) ∨
    ((l.check now).1.allowed = false ∧ (l.check now).2.Shows (b.fill rate now.toInt.toNat)) := by
  have filled := shows_.refill sound later speed
  rcases check_cases l now with ⟨allowed, enough, _, next⟩ | ⟨denied, next⟩
  · have million : oneRequest.toInt = 1000000 := rfl
    have tokens := filled.tokens
    have left_ := spend_tokens enough
    have paid : 1000000 ≤ (b.fill rate now.toInt.toNat).tokens := by omega
    refine .inl ⟨allowed, paid, ?_⟩
    rw [next]
    refine ⟨?_, filled.since, filled.capacity⟩
    have rest : ((b.fill rate now.toInt.toNat).take 1000000).tokens =
      (b.fill rate now.toInt.toNat).tokens - 1000000 := rfl
    rw [left_, rest]
    omega
  · rw [next]
    exact .inr ⟨denied, filled⟩

end Check

/-! ## A run -/

/-- The readings of a clock that does not go back, from `start` on. -/
def Readings (start : Int64) (times : List Int64) : Prop :=
  0 ≤ start.toInt ∧ (start :: times).Pairwise fun s t => s.toInt ≤ t.toInt

instance (start : Int64) (times : List Int64) : Decidable (Readings start times) :=
  inferInstanceAs (Decidable (_ ∧ _))

def events (answers : List (Int64 × Decision)) : List (ℕ × Bool) :=
  answers.map fun a => (a.1.toInt.toNat, a.2.allowed)

/-- The checks between two instants, both included, that were allowed. -/
def allowedWithin (low high : Int) (answers : List (Int64 × Decision)) : ℕ :=
  (answers.filter fun a => low ≤ a.1.toInt ∧ a.1.toInt ≤ high ∧ a.2.allowed = true).length

def allowedIn (answers : List (Int64 × Decision)) : ℕ :=
  (answers.filter fun a => a.2.allowed = true).length

/-- Of one check: one that denies takes nothing but what time gives, and the refill is
exact. -/
structure Held (l : Limiter) (now : Int64) : Prop where
  issued : (l.check now).1.allowed = false → (l.check now).2.issued = l.issued
  tokens : (l.check now).1.allowed = false → (l.check now).2.tokensMicro.toInt =
    min l.capacityMicro.toInt (l.tokensMicro.toInt +
      (now.toInt - l.lastRefillUs.toInt) * l.ratePerSecond.toInt)
  exact : l.Exact now

section Run

variable {l : Limiter} {now : Int64} {times : List Int64} {capacity rate : ℕ}
  {b : Bucket capacity}

theorem run_append (l : Limiter) (past later : List Int64) :
    (l.run (past ++ later)).2 = ((l.run past).2.run later).2 := by
  induction past generalizing l with
  | nil => rfl
  | cons now past ih => exact ih (l.check now).2

/-- After a check the clock goes on from its reading. -/
theorem readings_check (sound : l.Sound) (clock : Readings l.lastRefillUs (now :: times)) :
    l.lastRefillUs.toInt ≤ now.toInt ∧ Readings (l.check now).2.lastRefillUs times := by
  obtain ⟨start, sorted⟩ := clock
  obtain ⟨first, rest⟩ := List.pairwise_cons.1 sorted
  have later := first now List.mem_cons_self
  refine ⟨later, ?_, ?_⟩
  · rw [sound.check_since later]
    omega
  · rw [sound.check_since later]
    exact rest

theorem Sound.held (sound : l.Sound) (later : l.lastRefillUs.toInt ≤ now.toInt) :
    l.Held now := by
  refine ⟨?_, ?_, sound.exact later⟩
  · intro denied
    rcases check_cases l now with ⟨allowed, _⟩ | ⟨_, next⟩
    · rw [denied] at allowed
      contradiction
    · rw [next]
      exact refill_issued l now
  · intro denied
    rcases check_cases l now with ⟨allowed, _⟩ | ⟨_, next⟩
    · rw [denied] at allowed
      contradiction
    · rw [next]
      exact (sound.refill_eq later).1

/-- What every check of a run keeps. -/
theorem Sound.run (sound : l.Sound) (clock : Readings l.lastRefillUs times) :
    (l.run times).2.Sound ∧ l.Alike (l.run times).2 := by
  induction times generalizing l with
  | nil => exact ⟨sound, .refl l⟩
  | cons now times ih =>
      obtain ⟨later, rest⟩ := readings_check sound clock
      obtain ⟨kept, alike⟩ := ih (sound.check later) rest
      exact ⟨kept, (check_alike l now).trans alike⟩

/-- Where a run has got to is sound, and the next reading is no earlier. -/
theorem Sound.run_reached {past later : List Int64} (sound : l.Sound)
    (clock : Readings l.lastRefillUs (past ++ now :: later)) :
    (l.run past).2.Sound ∧ (l.run past).2.lastRefillUs.toInt ≤ now.toInt := by
  induction past generalizing l with
  | nil => exact ⟨sound, (readings_check sound clock).1⟩
  | cons first past ih =>
      obtain ⟨since, rest⟩ := readings_check sound clock
      exact ih (sound.check since) rest

theorem Sound.run_held {past later : List Int64} (sound : l.Sound)
    (clock : Readings l.lastRefillUs (past ++ now :: later)) : (l.run past).2.Held now := by
  obtain ⟨reached, since⟩ := sound.run_reached clock
  exact reached.held since

/-- A run of the limiter is a run of the bucket. -/
theorem Shows.runs (shows_ : l.Shows b) (sound : l.Sound) (speed : l.ratePerSecond.toInt = rate)
    (clock : Readings l.lastRefillUs times) :
    ∃ c : Bucket capacity, Bucket.Runs rate 1000000 b (events (l.run times).1) c := by
  induction times generalizing l b with
  | nil => exact ⟨b, .done b⟩
  | cons now times ih =>
      obtain ⟨later, rest⟩ := readings_check sound clock
      have since : b.since ≤ now.toInt.toNat := by
        have counted := shows_.since
        omega
      have speed' : (l.check now).2.ratePerSecond.toInt = rate :=
        (check_alike l now).rate ▸ speed
      have event : events (l.run (now :: times)).1 =
        (now.toInt.toNat, (l.check now).1.allowed) :: events ((l.check now).2.run times).1 := rfl
      rw [event]
      rcases shows_.check sound later speed with ⟨allowed, enough, next⟩ | ⟨denied, next⟩
      · obtain ⟨c, run⟩ := ih next (sound.check later) speed' rest
        rw [allowed]
        exact ⟨c, .took since enough run⟩
      · obtain ⟨c, run⟩ := ih next (sound.check later) speed' rest
        rw [denied]
        exact ⟨c, .left since run⟩

/-- Every allowed check is counted. -/
theorem Sound.run_issued (sound : l.Sound) (clock : Readings l.lastRefillUs times) :
    (l.run times).2.issued.toInt = l.issued.toInt + allowedIn (l.run times).1 := by
  induction times generalizing l with
  | nil => exact (Int.add_zero _).symm
  | cons now times ih =>
      obtain ⟨later, rest⟩ := readings_check sound clock
      have next := ih (sound.check later) rest
      have run : (l.run (now :: times)).2 = ((l.check now).2.run times).2 := rfl
      have count : allowedIn (l.run (now :: times)).1 =
          allowedIn ((l.check now).2.run times).1 +
            (if (l.check now).1.allowed = true then 1 else 0) := by
        have first : (l.run (now :: times)).1 =
          (now, (l.check now).1) :: ((l.check now).2.run times).1 := rfl
        rw [allowedIn, first, List.filter_cons]
        split
        · rename_i allowed
          rw [if_pos (of_decide_eq_true allowed)]
          rfl
        · rename_i denied
          rw [if_neg fun allowed => denied (decide_eq_true allowed)]
          rfl
      rw [run, next, count, (check_issued now sound.issued.2).1]
      split
      · omega
      · omega

/-- What the window counts, the bucket counts. -/
theorem allowedWithin_le_taken (answers : List (Int64 × Decision)) (low high : Int) :
    allowedWithin low high answers ≤
      Bucket.taken low.toNat high.toNat (events answers) := by
  induction answers with
  | nil => exact Nat.le_refl 0
  | cons a answers ih =>
      have event : events (a :: answers) = (a.1.toInt.toNat, a.2.allowed) :: events answers := rfl
      rw [allowedWithin, List.filter_cons, event, Bucket.taken]
      split
      · rename_i inside
        obtain ⟨after, before, allowed⟩ := of_decide_eq_true inside
        rw [if_pos ⟨by omega, by omega, allowed⟩, List.length_cons, Nat.add_comm]
        exact Nat.add_le_add_left ih 1
      · exact ih.trans (Nat.le_add_left _ _)

end Run

/-! ## The limits -/

section Limits

variable {start ratePerSecond maxRequests burst : Int64} {l : Limiter} {times : List Int64}

/-- The bucket a new limiter is. -/
theorem shows_new (clock : 0 ≤ start.toInt)
    (made : new start ratePerSecond maxRequests burst = .ok l) :
    l.Shows (Bucket.full ((max 1 burst.toInt).toNat * 1000000) start.toInt.toNat) := by
  obtain ⟨⟨_, _, _, low, high⟩, rfl⟩ := new_eq_ok_iff.1 made
  have capacity := capacity_new low high
  have whole : max 1 burst.toInt * 1000000 = ((max 1 burst.toInt).toNat * 1000000 : ℕ) := by omega
  constructor
  · exact capacity.trans whole
  · exact (Int.toNat_of_nonneg clock).symm
  · exact capacity.trans whole

/-- Over every run of checks, a window of `w` microseconds sees at most the burst and what
`w` earns at the rate, the run sees at most the budget, and every check keeps its word. -/
theorem run_limited (made : new start ratePerSecond maxRequests burst = .ok l)
    (clock : Readings start times) :
    (∀ (low : Int) (w : ℕ), allowedWithin low (low + w) (l.run times).1 ≤
      (max 1 burst.toInt).toNat + w * ratePerSecond.toInt.toNat / 1000000) ∧
    (allowedIn (l.run times).1 : Int) ≤ maxRequests.toInt ∧
    ∀ past now later, times = past ++ now :: later → (l.run past).2.Held now := by
  have sound := sound_new clock.1 made
  have shows_ := shows_new clock.1 made
  obtain ⟨⟨slow, _⟩, same⟩ := new_eq_ok_iff.1 made
  have since : l.lastRefillUs = start := by rw [same]
  have requests : l.maxRequests = maxRequests := by rw [same]
  have rate : l.ratePerSecond = ratePerSecond := by rw [same]
  have speed : l.ratePerSecond.toInt = (ratePerSecond.toInt.toNat : ℕ) := by
    rw [rate]
    omega
  have clock' : Readings l.lastRefillUs times := since ▸ clock
  refine ⟨?_, ?_, ?_⟩
  · intro low w
    obtain ⟨c, run⟩ := shows_.runs sound speed clock'
    have window := run.taken_mul_le low.toNat (low + w).toNat
    have counted := allowedWithin_le_taken (l.run times).1 low (low + w)
    have width : (low + w).toNat - low.toNat ≤ w := by omega
    have earned := Nat.mul_le_mul_right ratePerSecond.toInt.toNat width
    have quotient := Nat.div_add_mod (w * ratePerSecond.toInt.toNat) 1000000
    have rest := Nat.mod_lt (w * ratePerSecond.toInt.toNat) (y := 1000000) (by decide)
    omega
  · have kept := (sound.run clock').1.issued.2
    rw [sound.run_issued clock', (sound.run clock').2.requests, requests] at kept
    have none_ : l.issued.toInt = 0 := by
      rw [same]
      rfl
    omega
  · rintro past now later rfl
    exact sound.run_held clock'

end Limits

/-- Five requests a second, two back to back, three in all. -/
def paced : Limiter where
  ratePerSecond := 5
  maxRequests := 3
  burst := 2
  capacityMicro := 2000000
  fullRefillUs := 400001
  tokensMicro := 2000000
  lastRefillUs := 0
  issued := 0

/-- Two go out at once, the third when a token is back, and the budget is spent. -/
theorem paced_limited : new 0 5 3 2 = .ok paced ∧
    (paced.run [0, 0, 0, 200000, 9000000]).1.map (fun a => a.2.errorClass) =
      [none, none, some (js "rate_limited"), none, some (js "budget_exhausted")] ∧
    ∀ (low : Int) (w : ℕ),
      allowedWithin low (low + w) (paced.run [0, 0, 0, 200000, 9000000]).1 ≤
        2 + w * 5 / 1000000 := by
  have made : new 0 5 3 2 = .ok paced := rfl
  have clock : Readings 0 [0, 0, 0, 200000, 9000000] := by decide
  exact ⟨made, rfl, (run_limited made clock).1⟩

end Limiter

end Hx.Policy
