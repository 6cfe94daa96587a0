import Hx.Bridge.ConfigBody
import Hx.Policy.Window

/-!
# The limits a run is held to

The rate, the burst and the budget are read once, from the first authorisation with an
epoch that is used, and held from then on. The configure guard refuses a body that names
another number once they are held; before that it has nothing to compare with.
-/

namespace Hx.Send

open Hx.Java Hx.Bridge Hx.Policy

structure Limits where
  defaultRatePerSecond : Int64
  defaultMaxRequests : Int64
  limiter : Option Limiter
  ratePerSecond : Int64
  maxRequests : Int64
  rateBurst : Int64

namespace Limits

def rateKey : JString := js "limit.rate_rps"

def burstKey : JString := js "limit.rate_burst"

def requestsKey : JString := js "limit.max_requests"

/-- The constructor. -/
def new (defaultRatePerSecond defaultMaxRequests : Int64) : Limits :=
  ⟨defaultRatePerSecond, defaultMaxRequests, none, 0, 0, 0⟩

/-- `DEFAULT_RATE_RPS` and `DEFAULT_MAX_REQUESTS`, as the extension passes them. -/
def deployed : Limits := new 5 2000

variable (D : DigitMap)

/-- The number a scope gives for a key, or what is thrown over it. -/
def positive (scope : Scope) (key : JString) (fallback : Int64) : Except JString Int64 :=
  match (scope.get key).getD [] with
  | [] => .ok fallback
  | [value] =>
      match parseLong D (JString.strip value) with
      | none => .error (ConfigBody.notAnInteger key (JString.strip value))
      | some n => if n ≤ 0 then .error (ConfigBody.notPositive key n) else .ok n
  | several => .error (ConfigBody.timesText key several.length)

/-- `arm`. Where the limiter's constructor throws, the three numbers have been written. -/
def arm (l : Limits) (auth : Authorisation) (nowUs : Int64) : Except JString Unit × Limits :=
  if l.limiter.isSome ∨ auth.epoch = 0 then (.ok (), l)
  else
    match positive D auth.scope rateKey l.defaultRatePerSecond with
    | .error thrown => (.error thrown, l)
    | .ok rps =>
        match positive D auth.scope requestsKey l.defaultMaxRequests with
        | .error thrown => (.error thrown, l)
        | .ok requests =>
            match positive D auth.scope burstKey rps with
            | .error thrown => (.error thrown, l)
            | .ok burst =>
                match Limiter.new nowUs rps requests burst with
                | .error thrown =>
                    (.error thrown, { l with
                      ratePerSecond := rps, maxRequests := requests, rateBurst := burst })
                | .ok limiter =>
                    (.ok (), { l with
                      ratePerSecond := rps, maxRequests := requests, rateBurst := burst
                      limiter := some limiter })

/-- `check`, at a reading of the clock. -/
def check (l : Limits) (now : Int64) : Decision × Limits :=
  match l.limiter with
  | none => (.deny (js "not_configured") (js "the rate and budget are not armed"), l)
  | some limiter => ((limiter.check now).1, { l with limiter := some (limiter.check now).2 })

def movedText (key : JString) (armed asked : Int64) : JString :=
  key ++ js " cannot change mid-run: this run armed at " ++ longText armed ++
    js " and this configure asks for " ++ longText asked ++
    js ". A configure re-authorises scope, not issuance -- the rate and" ++
    js " budget are taken from the first authorisation and held, because" ++
    js " the budget must not be resupplied by a scope push. Start a new" ++
    js " run for a new limit, or re-send this configure without " ++ key ++ js "."

/-- How a key of the scope contradicts what is armed. -/
def movedFrom (scope : Scope) (key : JString) (armed : Int64) : Option JString :=
  if (scope.get key).getD [] = [] then none
  else
    match positive D scope key armed with
    | .error thrown => some thrown
    | .ok asked => if asked = armed then none else some (movedText key armed asked)

def refuseIfLimitsMoved (l : Limits) (scope : Scope) : Option JString :=
  if l.limiter.isNone then none
  else
    (movedFrom D scope rateKey l.ratePerSecond).or <|
      (movedFrom D scope burstKey l.rateBurst).or <|
        movedFrom D scope requestsKey l.maxRequests

/-! ## What is read -/

/-- The scope sets the key to the number. -/
def Named (scope : Scope) (key : JString) (n : Int64) : Prop :=
  ∃ value, scope.get key = some [value] ∧ parseLong D (JString.strip value) = some n

/-- The scope names no other number. -/
structure Agrees (scope : Scope) (rps requests burst : Int64) : Prop where
  rate : ∀ n, Named D scope rateKey n → rps = n
  requests : ∀ n, Named D scope requestsKey n → requests = n
  burst : ∀ n, Named D scope burstKey n → burst = n

/-- Every number the scope names is the limiter's. -/
def AgreesWith (limiter : Limiter) (scope : Scope) : Prop :=
  Agrees D scope limiter.ratePerSecond limiter.maxRequests limiter.burst

section Reads

variable {D} {scope : Scope} {key : JString} {fallback armed : Int64}

/-- What is named is what is read. -/
theorem positive_of_named {n m : Int64} (named : Named D scope key n)
    (read : positive D scope key fallback = .ok m) : m = n := by
  obtain ⟨value, found, parsed⟩ := named
  rw [positive, found, Option.getD_some] at read
  simp only [parsed] at read
  split at read
  · contradiction
  · exact (Except.ok.inj read).symm

/-- A number that can be read is positive, or it is what stands in for it. -/
theorem positive_cases {n : Int64} (read : positive D scope key fallback = .ok n) :
    n = fallback ∨ 0 < n.toInt := by
  rw [positive] at read
  split at read
  · exact .inl (Except.ok.inj read).symm
  · split at read
    · contradiction
    · split at read
      · contradiction
      · rename_i above
        cases read
        have zero : (0 : Int64).toInt = 0 := rfl
        rw [Int64.le_iff_toInt_le, zero] at above
        exact .inr (Int.not_le.1 above)
  · contradiction

/-- What the body's own check lets through can be read. -/
theorem positive_of_usable (fallback : Int64)
    (usable : ConfigBody.positiveInteger D (scope.get key) key = none) :
    ∃ n, positive D scope key fallback = .ok n := by
  rw [ConfigBody.positiveInteger] at usable
  rw [positive]
  generalize (scope.get key).getD [] = values at usable ⊢
  rcases values with _ | ⟨value, _ | ⟨other, rest⟩⟩
  · exact ⟨fallback, rfl⟩
  · cases parsed : parseLong D (JString.strip value) with
    | none =>
        simp only [parsed] at usable
        contradiction
    | some n =>
        simp only [parsed] at usable ⊢
        by_cases above : n ≤ 0
        · rw [if_pos above] at usable
          contradiction
        · exact ⟨n, if_neg above⟩
  · contradiction

/-- A key that has not moved names what is armed, or nothing. -/
theorem of_movedFrom (still : movedFrom D scope key armed = none) {n : Int64}
    (named : Named D scope key n) : armed = n := by
  have some_ : (scope.get key).getD [] ≠ [] := by
    obtain ⟨value, found, _⟩ := named
    rw [found]
    exact List.cons_ne_nil _ _
  rw [movedFrom, if_neg some_] at still
  split at still
  · contradiction
  · rename_i asked read
    split at still
    · rename_i same
      rw [← same]
      exact positive_of_named named read
    · contradiction

end Reads

/-! ## The guard -/

/-- The numbers kept for the guard are the limiter's own. -/
structure Kept (l : Limits) (limiter : Limiter) : Prop where
  rate : l.ratePerSecond = limiter.ratePerSecond
  burst : l.rateBurst = limiter.burst
  requests : l.maxRequests = limiter.maxRequests

section Guard

variable {D} {l : Limits} {limiter : Limiter} {scope : Scope} {auth : Authorisation}
  {nowUs : Int64}

/-- What the guard accepts once the limiter is armed names the armed numbers. -/
theorem agrees_of_accepted (armed : l.limiter = some limiter) (kept : l.Kept limiter)
    (accepted : l.refuseIfLimitsMoved D scope = none) : AgreesWith D limiter scope := by
  rw [refuseIfLimitsMoved, armed] at accepted
  obtain ⟨rate, others⟩ := Option.or_eq_none_iff.1 accepted
  obtain ⟨burst, requests⟩ := Option.or_eq_none_iff.1 others
  constructor
  · exact fun n named => kept.rate ▸ of_movedFrom rate named
  · exact fun n named => kept.requests ▸ of_movedFrom requests named
  · exact fun n named => kept.burst ▸ of_movedFrom burst named

/-- What an `arm` that changes something has read. -/
structure Read (D : DigitMap) (l : Limits) (scope : Scope) (rps requests burst : Int64) : Prop where
  rate : positive D scope rateKey l.defaultRatePerSecond = .ok rps
  requests : positive D scope requestsKey l.defaultMaxRequests = .ok requests
  burst : positive D scope burstKey rps = .ok burst

/-- What `arm` comes to: nothing, a number it could not read, or the limiter's constructor. -/
theorem arm_eq (l : Limits) (auth : Authorisation) (nowUs : Int64) :
    ((l.limiter.isSome ∨ auth.epoch = 0) ∧ l.arm D auth nowUs = (.ok (), l)) ∨
    (l.limiter = none ∧ (∃ thrown, l.arm D auth nowUs = (.error thrown, l)) ∧
      ∀ rps requests burst, ¬ Read D l auth.scope rps requests burst) ∨
    (l.limiter = none ∧ ∃ rps requests burst, Read D l auth.scope rps requests burst ∧
      ((∃ thrown, Limiter.new nowUs rps requests burst = .error thrown ∧
          l.arm D auth nowUs = (.error thrown, { l with
            ratePerSecond := rps, maxRequests := requests, rateBurst := burst })) ∨
        ∃ limiter, Limiter.new nowUs rps requests burst = .ok limiter ∧
          l.arm D auth nowUs = (.ok (), { l with
            ratePerSecond := rps, maxRequests := requests, rateBurst := burst
            limiter := some limiter }))) := by
  rw [arm]
  split
  · rename_i idle
    exact .inl ⟨idle, rfl⟩
  · rename_i first
    have none_ : l.limiter = none := Option.not_isSome_iff_eq_none.1 fun h => first (.inl h)
    right
    split
    · rename_i thrown rate
      refine .inl ⟨none_, ⟨thrown, rfl⟩, ?_⟩
      intro _ _ _ read
      have both := rate.symm.trans read.rate
      contradiction
    · rename_i rps rate
      split
      · rename_i thrown budget
        refine .inl ⟨none_, ⟨thrown, rfl⟩, ?_⟩
        intro _ _ _ read
        have both := budget.symm.trans read.requests
        contradiction
      · rename_i requests budget
        split
        · rename_i thrown shape
          refine .inl ⟨none_, ⟨thrown, rfl⟩, ?_⟩
          intro _ _ _ read
          cases rate.symm.trans read.rate
          have both := shape.symm.trans read.burst
          contradiction
        · rename_i burst shape
          refine .inr ⟨none_, rps, requests, burst, ⟨rate, budget, shape⟩, ?_⟩
          split
          · rename_i thrown refused
            exact .inl ⟨thrown, refused, rfl⟩
          · rename_i limiter made
            exact .inr ⟨limiter, made, rfl⟩

end Guard

end Limits

end Hx.Send
