import Hx.Library.Transition
import Hx.Send.Limits

/-!
# Arming, reconfiguring and checking

A configure is parsed and guarded in one step and committed in a later one. Between the
two, and at any other time, the send path and the proxy path arm the limits under a
snapshot they read earlier, and the gate is asked. Handlers of any number of connections
run side by side.
-/

namespace Hx.Send

open Hx.Java Hx.Library Hx.Bridge Hx.Policy

/-- The limits, the scopes a guard has let through and no commit has published, and every
authorisation that was ever acknowledged. -/
structure Armory where
  limits : Limits
  considered : List Scope
  published : List Authorisation

namespace Armory

inductive Event where
  | refused (message : JString)
  | considered (scope : Scope)
  | dropped (scope : Scope)
  | committed (auth : Authorisation)
  | armed (auth : Authorisation) (limiter : Limiter)
  | unarmed (auth : Authorisation) (answer : Except JString Unit)
  | checked (now : Int64) (decision : Decision)

variable (D : DigitMap)

/-- An arm is `armed` where it builds the limiter, and `unarmed` where it returns at once
or throws. -/
inductive Step : Armory → Event → Armory → Prop where
  | unparsed {m : Armory} {text message : JString} :
      ConfigBody.parse D text = .error message → Step m (.refused message) m
  | guarded {m : Armory} {text message : JString} {scope : Scope} :
      ConfigBody.parse D text = .ok scope →
      m.limits.refuseIfLimitsMoved D scope = some message → Step m (.refused message) m
  | considered {m : Armory} {text : JString} {scope : Scope} :
      ConfigBody.parse D text = .ok scope → m.limits.refuseIfLimitsMoved D scope = none →
      Step m (.considered scope) { m with considered := scope :: m.considered }
  | dropped {m : Armory} {scope : Scope} : scope ∈ m.considered →
      Step m (.dropped scope) { m with considered := m.considered.erase scope }
  | committed {m : Armory} {scope : Scope} {epoch : Nat} : scope ∈ m.considered → epoch ≠ 0 →
      Step m (.committed ⟨epoch, scope⟩)
        { m with considered := m.considered.erase scope
                 published := ⟨epoch, scope⟩ :: m.published }
  | armed {m : Armory} {auth : Authorisation} {now : Int64} {limits : Limits} {limiter : Limiter} :
      auth ∈ denied :: m.published → m.limits.limiter = none →
      m.limits.arm D auth now = (.ok (), limits) → limits.limiter = some limiter →
      Step m (.armed auth limiter) { m with limits := limits }
  | unarmed {m : Armory} {auth : Authorisation} {now : Int64} {limits : Limits}
      {answer : Except JString Unit} :
      auth ∈ denied :: m.published → m.limits.arm D auth now = (answer, limits) →
      limits.limiter = m.limits.limiter →
      Step m (.unarmed auth answer) { m with limits := limits }
  | checked {m : Armory} (now : Int64) :
      Step m (.checked now (m.limits.check now).1) { m with limits := (m.limits.check now).2 }

/-- Nothing was configured yet. -/
def Starts (m : Armory) : Prop := m = ⟨Limits.deployed, [], []⟩

def system : System Armory Event where
  init := Starts
  step := Step D

/-- The checks of a history that were allowed. -/
def allowed : List Event → ℕ
  | [] => 0
  | .checked _ d :: past => (if d.allowed = true then 1 else 0) + allowed past
  | _ :: past => allowed past

/-! ## What an acknowledged configure is good for -/

/-- What the scope asks for is within the limiter's ceilings. -/
def Armable (l : Limits) (scope : Scope) : Prop :=
  ∃ rps burst, Limits.positive D scope Limits.rateKey l.defaultRatePerSecond = .ok rps ∧
    Limits.positive D scope Limits.burstKey rps = .ok burst ∧ rps ≤ maxRate ∧ burst ≤ maxRate

/-- The defaults are the extension's, and what was let through has usable numbers. -/
structure Usable (m : Armory) : Prop where
  rate : m.limits.defaultRatePerSecond = 5
  requests : m.limits.defaultMaxRequests = 2000
  considered : ∀ scope ∈ m.considered, ∀ key ∈ ConfigBody.positiveIntegerKeys,
    ConfigBody.positiveInteger D (scope.get key) key = none
  published : ∀ auth ∈ m.published, auth.epoch ≠ 0 ∧ ∀ key ∈ ConfigBody.positiveIntegerKeys,
    ConfigBody.positiveInteger D (auth.scope.get key) key = none

section Usable

variable {D} {m n : Armory} {e : Event} {auth : Authorisation}

theorem defaults_arm {l limits : Limits} {now : Int64} {answer : Except JString Unit}
    (arm : l.arm D auth now = (answer, limits)) :
    limits.defaultRatePerSecond = l.defaultRatePerSecond ∧
      limits.defaultMaxRequests = l.defaultMaxRequests := by
  have after : limits = (l.arm D auth now).2 := by rw [arm]
  rw [after]
  rcases l.arm_eq (D := D) auth now with ⟨_, same⟩ | ⟨_, ⟨_, same⟩, _⟩ | ⟨_, _, _, _, _, made⟩
  · rw [same]
    exact ⟨rfl, rfl⟩
  · rw [same]
    exact ⟨rfl, rfl⟩
  · rcases made with ⟨_, _, same⟩ | ⟨_, _, same⟩
    · rw [same]
      exact ⟨rfl, rfl⟩
    · rw [same]
      exact ⟨rfl, rfl⟩

theorem defaults_check {l : Limits} {now : Int64} :
    (l.check now).2.defaultRatePerSecond = l.defaultRatePerSecond ∧
      (l.check now).2.defaultMaxRequests = l.defaultMaxRequests := by
  rw [Limits.check]
  split
  · exact ⟨rfl, rfl⟩
  · exact ⟨rfl, rfl⟩

theorem Usable.step (usable : m.Usable D) (step : Step D m e n) : n.Usable D := by
  obtain ⟨rate, requests, considered, published⟩ := usable
  cases step with
  | unparsed _ => exact ⟨rate, requests, considered, published⟩
  | guarded _ _ => exact ⟨rate, requests, considered, published⟩
  | considered parsed _ =>
      refine ⟨rate, requests, ?_, published⟩
      intro scope mem
      rcases List.mem_cons.1 mem with rfl | mem
      · exact ConfigBody.usable_of_parse parsed
      · exact considered scope mem
  | dropped _ =>
      exact ⟨rate, requests, fun scope mem => considered scope (List.mem_of_mem_erase mem),
        published⟩
  | committed among nonzero =>
      refine ⟨rate, requests, fun scope mem => considered scope (List.mem_of_mem_erase mem), ?_⟩
      intro auth mem
      rcases List.mem_cons.1 mem with rfl | mem
      · exact ⟨nonzero, considered _ among⟩
      · exact published auth mem
  | armed _ _ arm _ =>
      exact ⟨(defaults_arm arm).1.trans rate, (defaults_arm arm).2.trans requests, considered,
        published⟩
  | unarmed _ arm _ =>
      exact ⟨(defaults_arm arm).1.trans rate, (defaults_arm arm).2.trans requests, considered,
        published⟩
  | checked now =>
      exact ⟨defaults_check.1.trans rate, defaults_check.2.trans requests, considered, published⟩

theorem usable_of_reachable (reachable : (system D).Reachable m) : m.Usable D := by
  refine reachable.invariant (P := fun m => m.Usable D) ?_ fun _ _ _ usable step => usable.step step
  rintro _ rfl
  exact ⟨rfl, rfl, fun _ mem => absurd mem List.not_mem_nil,
    fun _ mem => absurd mem List.not_mem_nil⟩

/-- An arm under an acknowledged authorisation returns exactly where the limits are armed
already, or the numbers in force are within the ceilings. -/
theorem arm_returns_iff (reachable : (system D).Reachable m) (acknowledged : auth ∈ m.published)
    (now : Int64) : (m.limits.arm D auth now).1 = .ok () ↔
      m.limits.limiter.isSome = true ∨ Armable D m.limits auth.scope := by
  obtain ⟨rate, requests, _, published⟩ := usable_of_reachable reachable
  obtain ⟨nonzero, usable⟩ := published auth acknowledged
  obtain ⟨rps, ofRate⟩ := Limits.positive_of_usable m.limits.defaultRatePerSecond
    (usable Limits.rateKey (by decide))
  obtain ⟨budget, ofBudget⟩ := Limits.positive_of_usable m.limits.defaultMaxRequests
    (usable Limits.requestsKey (by decide))
  obtain ⟨burst, ofBurst⟩ := Limits.positive_of_usable rps
    (usable Limits.burstKey (by decide))
  have five : (5 : Int64).toInt = 5 := rfl
  have thousands : (2000 : Int64).toInt = 2000 := rfl
  have top : maxRate.toInt = 10000 := rfl
  have slow : 1 ≤ rps.toInt := by
    rcases Limits.positive_cases ofRate with same | positive
    · rw [same, rate, five]
      decide
    · exact positive
  have some_ : 0 ≤ budget.toInt := by
    rcases Limits.positive_cases ofBudget with same | positive
    · rw [same, requests, thousands]
      decide
    · exact Int.le_of_lt positive
  have shape : 0 ≤ burst.toInt := by
    rcases Limits.positive_cases ofBurst with same | positive
    · rw [same]
      exact Int.le_trans (by decide) slow
    · exact Int.le_of_lt positive
  have armable : Armable D m.limits auth.scope ↔ rps ≤ maxRate ∧ burst ≤ maxRate := by
    constructor
    · rintro ⟨rps', burst', ofRate', ofBurst', within⟩
      cases ofRate.symm.trans ofRate'
      cases ofBurst.symm.trans ofBurst'
      exact within
    · exact fun within => ⟨rps, burst, ofRate, ofBurst, within⟩
  rw [armable, Int64.le_iff_toInt_le, Int64.le_iff_toInt_le, top]
  rcases m.limits.arm_eq (D := D) auth now with ⟨idle, same⟩ | ⟨_, _, unread⟩ |
    ⟨none_, rps', budget', burst', ⟨ofRate', ofBudget', ofBurst'⟩, made⟩
  · rw [same]
    exact iff_of_true rfl (.inl (idle.resolve_right nonzero))
  · exact absurd ⟨ofRate, ofBudget, ofBurst⟩ (unread rps budget burst)
  · cases ofRate.symm.trans ofRate'
    cases ofBudget.symm.trans ofBudget'
    cases ofBurst.symm.trans ofBurst'
    have unarmed : ¬ m.limits.limiter.isSome = true := by
      rw [none_]
      exact Bool.false_ne_true
    rw [or_iff_right unarmed]
    rcases made with ⟨thrown, refused, same⟩ | ⟨limiter, made, same⟩
    · rw [same]
      refine iff_of_false (fun returned => by contradiction) ?_
      intro within
      have accepted : ∃ limiter, Limiter.new now rps budget burst = .ok limiter :=
        ⟨_, Limiter.new_eq_ok_iff.2 ⟨⟨slow, within.1, some_, shape, within.2⟩, rfl⟩⟩
      rw [refused] at accepted
      obtain ⟨_, both⟩ := accepted
      contradiction
    · rw [same]
      obtain ⟨⟨_, fast, _, _, narrow⟩, _⟩ := Limiter.new_eq_ok_iff.1 made
      exact iff_of_true rfl ⟨fast, narrow⟩

end Usable

/-! ## What is enforced -/

/-- Whoever arms first, every configure that is let through and not yet published names the
numbers that are armed, or none. -/
def Settled (m : Armory) (e : Event) : Prop :=
  ∀ auth limiter, e = .armed auth limiter → ∀ rps requests burst,
    Limits.Read D m.limits auth.scope rps requests burst →
      ∀ scope ∈ m.considered, Limits.Agrees D scope rps requests burst

/-- Of a run that has armed its limiter: what it enforces, and what it was told since. -/
structure Enforced (h : List Event) (m : Armory) (limiter : Limiter) : Prop where
  kept : m.limits.Kept limiter
  issued : limiter.issued.toInt = allowed h
  within : limiter.issued.toInt ≤ limiter.maxRequests.toInt
  considered : ∀ scope ∈ m.considered, Limits.AgreesWith D limiter scope
  since : ∀ later auth made earlier, h = later ++ .armed auth made :: earlier →
    made.Alike limiter ∧
      ∀ epoch scope, .committed ⟨epoch, scope⟩ ∈ later → Limits.AgreesWith D limiter scope

/-- Of any run: nothing is allowed and nothing was armed, or the limiter enforces what was
armed. -/
structure Agreed (h : List Event) (m : Armory) : Prop where
  unarmed : m.limits.limiter = none → allowed h = 0 ∧ ∀ auth made, .armed auth made ∉ h
  armed : ∀ limiter, m.limits.limiter = some limiter → Enforced D h m limiter

section Enforced

variable {D} {h : List Event} {m n : Armory} {e : Event} {limiter next : Limiter}

/-- What an event that arms nothing keeps. -/
theorem Agreed.quiet (agreed : Agreed D h m) (same : n.limits.limiter = m.limits.limiter)
    (keeps : ∀ limiter, m.limits.limiter = some limiter → m.limits.Kept limiter →
      n.limits.Kept limiter)
    (considered : ∀ limiter, m.limits.limiter = some limiter →
      (∀ scope ∈ m.considered, Limits.AgreesWith D limiter scope) →
        ∀ scope ∈ n.considered, Limits.AgreesWith D limiter scope)
    (committed : ∀ limiter, m.limits.limiter = some limiter → ∀ epoch scope,
      e = .committed ⟨epoch, scope⟩ → scope ∈ m.considered)
    (unchecked : allowed (e :: h) = allowed h) (arms : ∀ auth made, e ≠ .armed auth made) :
    Agreed D (e :: h) n := by
  obtain ⟨unarmed, armed⟩ := agreed
  constructor
  · rw [same]
    intro none_
    obtain ⟨nothing, never⟩ := unarmed none_
    refine ⟨unchecked.trans nothing, fun auth made mem => ?_⟩
    rcases List.mem_cons.1 mem with first | mem
    · exact arms auth made first.symm
    · exact never auth made mem
  · rw [same]
    intro limiter held
    obtain ⟨kept, issued, within, agree, since⟩ := armed limiter held
    refine ⟨keeps limiter held kept, unchecked ▸ issued, within, considered limiter held agree, ?_⟩
    intro later auth made earlier split_
    rcases List.cons_eq_append_iff.1 split_ with ⟨_, first⟩ | ⟨rest, rfl, past⟩
    · exact absurd (List.cons.inj first).1.symm (arms auth made)
    · obtain ⟨alike, told⟩ := since rest auth made earlier past
      refine ⟨alike, fun epoch scope mem => ?_⟩
      rcases List.mem_cons.1 mem with first | mem
      · exact agree scope (committed limiter held epoch scope first.symm)
      · exact told epoch scope mem

/-- The first arm enforces what it read. -/
theorem Agreed.first {auth : Authorisation} {now : Int64} {limits : Limits}
    (agreed : Agreed D h m) (none_ : m.limits.limiter = none)
    (arm : m.limits.arm D auth now = (.ok (), limits)) (made : limits.limiter = some limiter)
    (settled : Settled D m (.armed auth limiter)) :
    Agreed D (.armed auth limiter :: h) { m with limits := limits } := by
  obtain ⟨nothing, never⟩ := agreed.unarmed none_
  constructor
  · intro unarmed
    have both := unarmed.symm.trans made
    contradiction
  intro limiter' held
  cases made.symm.trans held
  rcases m.limits.arm_eq (D := D) auth now with ⟨_, same⟩ | ⟨_, ⟨_, same⟩, _⟩ |
    ⟨_, rps, requests, burst, read, ⟨_, _, same⟩ | ⟨limiter', new, same⟩⟩
  · cases arm.symm.trans same
    rw [none_] at made
    contradiction
  · cases arm.symm.trans same
  · cases arm.symm.trans same
  · cases arm.symm.trans same
    cases made
    obtain ⟨range, rfl⟩ := Limiter.new_eq_ok_iff.1 new
    refine ⟨⟨rfl, rfl, rfl⟩, ?_, ?_, ?_, ?_⟩
    · exact (congrArg Nat.cast nothing).symm
    · exact range.2.2.1
    · exact settled auth _ rfl rps requests burst read
    · intro later auth' made earlier split_
      rcases List.cons_eq_append_iff.1 split_ with ⟨rfl, first⟩ | ⟨rest, rfl, past⟩
      · cases first
        exact ⟨.refl _, fun _ _ mem => absurd mem List.not_mem_nil⟩
      · refine absurd ?_ (never auth' made)
        rw [past]
        exact List.mem_append_right _ List.mem_cons_self

/-- A check spends what is left, and changes no number. -/
theorem Agreed.checked (agreed : Agreed D h m) (now : Int64) :
    Agreed D (.checked now (m.limits.check now).1 :: h)
      { m with limits := (m.limits.check now).2 } := by
  cases held : m.limits.limiter with
  | none =>
      have same : m.limits.check now =
          (.deny (js "not_configured") (js "the rate and budget are not armed"), m.limits) := by
        rw [Limits.check, held]
      rw [same]
      have uncounted : allowed (.checked now (.deny (js "not_configured")
          (js "the rate and budget are not armed")) :: h) = allowed h := by
        rw [allowed]
        exact Nat.zero_add _
      apply agreed.quiet rfl (fun _ _ kept => kept) (fun _ _ agree => agree) _ uncounted
      · intro auth made other
        contradiction
      · intro _ _ _ _ other
        contradiction
  | some limiter =>
      have same : m.limits.check now = ((limiter.check now).1,
          { m.limits with limiter := some (limiter.check now).2 }) := by
        rw [Limits.check, held]
      rw [same]
      obtain ⟨kept, issued, within, agree, since⟩ := agreed.armed limiter held
      have alike := Limiter.check_alike limiter now
      have counted := Limiter.check_issued now within
      have names : ∀ scope, Limits.AgreesWith D limiter scope →
          Limits.AgreesWith D (limiter.check now).2 scope := by
        intro scope agree
        rw [Limits.AgreesWith, alike.rate, alike.requests, alike.burst]
        exact agree
      constructor
      · intro none_
        contradiction
      intro limiter' armed
      cases armed
      refine ⟨?_, ?_, counted.2, fun scope mem => names scope (agree scope mem), ?_⟩
      · exact ⟨kept.rate.trans alike.rate.symm, kept.burst.trans alike.burst.symm,
          kept.requests.trans alike.requests.symm⟩
      · rw [counted.1, issued, allowed]
        split
        · omega
        · omega
      · intro later auth made earlier split_
        rcases List.cons_eq_append_iff.1 split_ with ⟨_, first⟩ | ⟨rest, rfl, past⟩
        · have other := (List.cons.inj first).1
          contradiction
        · obtain ⟨alike', told⟩ := since rest auth made earlier past
          refine ⟨alike'.trans alike, fun epoch scope mem => names scope ?_⟩
          rcases List.mem_cons.1 mem with other | mem
          · contradiction
          · exact told epoch scope mem

/-- What one step keeps. -/
theorem Agreed.step (agreed : Agreed D h m) (step : Step D m e n) (settled : Settled D m e) :
    Agreed D (e :: h) n := by
  have kept : ∀ limiter, m.limits.limiter = some limiter → m.limits.Kept limiter →
    m.limits.Kept limiter := fun _ _ kept => kept
  cases step with
  | unparsed _ =>
      refine agreed.quiet rfl kept (fun _ _ agree => agree) ?_ rfl ?_
      · intro _ _ _ _ other
        contradiction
      · intro auth made other
        contradiction
  | guarded _ _ =>
      refine agreed.quiet rfl kept (fun _ _ agree => agree) ?_ rfl ?_
      · intro _ _ _ _ other
        contradiction
      · intro auth made other
        contradiction
  | considered parsed accepted =>
      refine agreed.quiet rfl kept ?_ ?_ rfl ?_
      · intro limiter held agree scope mem
        rcases List.mem_cons.1 mem with rfl | mem
        · exact Limits.agrees_of_accepted held (agreed.armed limiter held).kept accepted
        · exact agree scope mem
      · intro _ _ _ _ other
        contradiction
      · intro auth made other
        contradiction
  | dropped _ =>
      refine agreed.quiet rfl kept ?_ ?_ rfl ?_
      · exact fun _ _ agree scope mem => agree scope (List.mem_of_mem_erase mem)
      · intro _ _ _ _ other
        contradiction
      · intro auth made other
        contradiction
  | committed among _ =>
      refine agreed.quiet rfl kept ?_ ?_ rfl ?_
      · exact fun _ _ agree scope mem => agree scope (List.mem_of_mem_erase mem)
      · intro _ _ _ _ other
        cases other
        exact among
      · intro auth made other
        contradiction
  | armed _ none_ arm made => exact agreed.first none_ arm made settled
  | unarmed _ arm same =>
      refine agreed.quiet same ?_ (fun _ _ agree => agree) ?_ rfl ?_
      · intro limiter held kept
        have idle : m.limits.limiter.isSome = true := by rw [held, Option.isSome_some]
        rw [Limits.arm, if_pos (.inl idle)] at arm
        cases arm
        exact kept
      · intro _ _ _ _ other
        contradiction
      · intro auth made other
        contradiction
  | checked now => exact agreed.checked now

theorem agreed_of_history (run : ((system D).restrict (Settled D)).History h m) :
    Agreed D h m := by
  apply run.invariant (P := Agreed D)
  · rintro _ rfl
    constructor
    · exact fun _ => ⟨rfl, fun _ _ mem => absurd mem List.not_mem_nil⟩
    · intro limiter held
      contradiction
  · intro h m e n _ agreed ⟨step, settled⟩
    exact agreed.step step settled

/-- Where whoever arms first finds no other number on its way to a commit, what is armed
stays, every configure acknowledged since names it, and the checks that are ever allowed
fit its budget. -/
theorem enforced_since (run : ((system D).restrict (Settled D)).History h m)
    {later earlier : List Event} {auth : Authorisation} {made : Limiter}
    (armed : h = later ++ .armed auth made :: earlier) :
    ∃ limiter, m.limits.limiter = some limiter ∧ made.Alike limiter ∧
      (∀ epoch scope, .committed ⟨epoch, scope⟩ ∈ later → Limits.AgreesWith D limiter scope) ∧
      (allowed h : Int) ≤ made.maxRequests.toInt := by
  have agreed := agreed_of_history run
  cases held : m.limits.limiter with
  | none =>
      refine absurd ?_ ((agreed.unarmed held).2 auth made)
      rw [armed]
      exact List.mem_append_right _ List.mem_cons_self
  | some limiter =>
      obtain ⟨_, issued, within, _, since⟩ := agreed.armed limiter held
      obtain ⟨alike, told⟩ := since later auth made earlier armed
      rw [issued, alike.requests] at within
      exact ⟨limiter, rfl, alike, told, within⟩

end Enforced

/-! ## A configure that was overtaken -/

def slowText : JString := js "limit.rate_rps\t5"

def slow : Scope := [(Limits.rateKey, [js "5"])]

def fastText : JString := js "limit.rate_rps\t7"

def fast : Scope := [(Limits.rateKey, [js "7"])]

def slowLimiter : Limiter where
  ratePerSecond := 5
  maxRequests := 2000
  burst := 5
  capacityMicro := 5000000
  fullRefillUs := 1000001
  tokensMicro := 5000000
  lastRefillUs := 0
  issued := 0

def slowLimits : Limits := ⟨5, 2000, some slowLimiter, 5, 2000, 5⟩

theorem parse_slow : ConfigBody.parse basicDigits slowText = .ok slow := rfl

theorem parse_fast : ConfigBody.parse basicDigits fastText = .ok fast := rfl

theorem arm_slow : Limits.deployed.arm basicDigits ⟨1, slow⟩ 0 = (.ok (), slowLimits) := rfl

theorem restricted {m n : Armory} {e : Event} (step : Step basicDigits m e n)
    (settled : Settled basicDigits m e) :
    ((system basicDigits).restrict (Settled basicDigits)).step m e n := ⟨step, settled⟩

theorem settled_considered (m : Armory) (scope : Scope) :
    Settled basicDigits m (.considered scope) := by
  intro _ _ other
  contradiction

theorem settled_committed (m : Armory) (auth : Authorisation) :
    Settled basicDigits m (.committed auth) := by
  intro _ _ other
  contradiction

theorem guard_slow : slowLimits.refuseIfLimitsMoved basicDigits slow = none := rfl

/-- What is parsed first is let through and acknowledged. -/
theorem history_acknowledged {text : JString} {scope : Scope}
    (parsed : ConfigBody.parse basicDigits text = .ok scope) :
    ((system basicDigits).restrict (Settled basicDigits)).History
      [.committed ⟨1, scope⟩, .considered scope] ⟨Limits.deployed, [], [⟨1, scope⟩]⟩ := by
  have first : Step basicDigits ⟨Limits.deployed, [], []⟩ (.considered scope)
    ⟨Limits.deployed, [scope], []⟩ := .considered parsed rfl
  have second : Step basicDigits ⟨Limits.deployed, [scope], []⟩ (.committed ⟨1, scope⟩)
      ⟨Limits.deployed, [scope].erase scope, [⟨1, scope⟩]⟩ :=
    .committed List.mem_cons_self Nat.one_ne_zero
  rw [List.erase_cons_head] at second
  have start : ((system basicDigits).restrict (Settled basicDigits)).History []
    ⟨Limits.deployed, [], []⟩ := .start rfl
  have considered := start.step (restricted first (settled_considered _ _))
  exact considered.step (restricted second (settled_committed _ _))

/-- The second configure is let through, the first one is armed from, and the second is
acknowledged. -/
theorem overtaken : ∃ m, (system basicDigits).History
    ([.committed ⟨2, fast⟩] ++ .armed ⟨1, slow⟩ slowLimiter ::
      [.considered fast, .committed ⟨1, slow⟩, .considered slow]) m ∧
    m.limits.limiter = some slowLimiter ∧ Limits.Named basicDigits fast Limits.rateKey 7 ∧
    ¬ Limits.AgreesWith basicDigits slowLimiter fast := by
  have named : Limits.Named basicDigits fast Limits.rateKey 7 := ⟨js "7", rfl, rfl⟩
  refine ⟨⟨slowLimits, [], [⟨2, fast⟩, ⟨1, slow⟩]⟩, ?_, rfl, named, ?_⟩
  · have first := (history_acknowledged parse_slow).of_restrict
    have second : Step basicDigits ⟨Limits.deployed, [], [⟨1, slow⟩]⟩ (.considered fast)
        ⟨Limits.deployed, [fast], [⟨1, slow⟩]⟩ := .considered parse_fast rfl
    have third : Step basicDigits ⟨Limits.deployed, [fast], [⟨1, slow⟩]⟩
        (.armed ⟨1, slow⟩ slowLimiter) ⟨slowLimits, [fast], [⟨1, slow⟩]⟩ :=
      .armed (List.mem_cons_of_mem _ List.mem_cons_self) rfl arm_slow rfl
    have fourth : Step basicDigits ⟨slowLimits, [fast], [⟨1, slow⟩]⟩ (.committed ⟨2, fast⟩)
        ⟨slowLimits, [], [⟨2, fast⟩, ⟨1, slow⟩]⟩ :=
      .committed List.mem_cons_self (Nat.succ_ne_zero 1)
    exact ((first.step second).step third).step fourth
  · intro agrees
    have same : (5 : Int64) = 7 := agrees.rate 7 named
    contradiction

/-- What is armed first is what a second configure names. -/
theorem slow_enforced : ∃ limiter, slowLimits.limiter = some limiter ∧
    Limits.AgreesWith basicDigits limiter slow ∧
    (allowed [.committed ⟨2, slow⟩, .considered slow, .armed ⟨1, slow⟩ slowLimiter,
      .committed ⟨1, slow⟩, .considered slow] : Int) ≤ 2000 := by
  have first := history_acknowledged parse_slow
  have second : Step basicDigits ⟨Limits.deployed, [], [⟨1, slow⟩]⟩
      (.armed ⟨1, slow⟩ slowLimiter) ⟨slowLimits, [], [⟨1, slow⟩]⟩ :=
    .armed (List.mem_cons_of_mem _ List.mem_cons_self) rfl arm_slow rfl
  have third : Step basicDigits ⟨slowLimits, [], [⟨1, slow⟩]⟩ (.considered slow)
      ⟨slowLimits, [slow], [⟨1, slow⟩]⟩ := .considered parse_slow guard_slow
  have fourth : Step basicDigits ⟨slowLimits, [slow], [⟨1, slow⟩]⟩ (.committed ⟨2, slow⟩)
      ⟨slowLimits, [], [⟨2, slow⟩, ⟨1, slow⟩]⟩ :=
    .committed List.mem_cons_self (Nat.succ_ne_zero 1)
  have run : ((system basicDigits).restrict (Settled basicDigits)).History
      ([.committed ⟨2, slow⟩, .considered slow] ++ .armed ⟨1, slow⟩ slowLimiter ::
        [.committed ⟨1, slow⟩, .considered slow]) ⟨slowLimits, [], [⟨2, slow⟩, ⟨1, slow⟩]⟩ := by
    have armed := first.step (restricted second
      fun _ _ _ _ _ _ _ _ mem => absurd mem List.not_mem_nil)
    have considered := armed.step (restricted third (settled_considered _ _))
    exact considered.step (restricted fourth (settled_committed _ _))
  obtain ⟨limiter, held, _, told, within⟩ := enforced_since run rfl
  exact ⟨limiter, held, told 2 slow List.mem_cons_self, within⟩

/-! ## A rate above the ceiling -/

def hastyText : JString := js "limit.rate_rps\t20000"

def hasty : Scope := [(Limits.rateKey, [js "20000"])]

theorem parse_hasty : ConfigBody.parse basicDigits hastyText = .ok hasty := rfl

/-- It is acknowledged, and the first arm throws. -/
theorem hasty_throws : ∃ m, (system basicDigits).Reachable m ∧ ⟨1, hasty⟩ ∈ m.published ∧
    (m.limits.arm basicDigits ⟨1, hasty⟩ 0).1 =
      .error (js "limit.rate_rps above the 10000 ceiling: 20000") :=
  ⟨⟨Limits.deployed, [], [⟨1, hasty⟩]⟩,
    (history_acknowledged parse_hasty).of_restrict.reachable, List.mem_cons_self, rfl⟩

/-- A rate within the ceiling is armed. -/
theorem slow_returns : (Limits.deployed.arm basicDigits ⟨1, slow⟩ 0).1 = .ok () := by
  have reachable := (history_acknowledged parse_slow).of_restrict.reachable
  have armable : Armable basicDigits Limits.deployed slow := ⟨5, 5, rfl, rfl, by decide, by decide⟩
  exact (arm_returns_iff reachable List.mem_cons_self 0).2 (.inr armable)

end Armory

end Hx.Send
