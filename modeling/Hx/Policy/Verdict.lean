import Hx.Policy.Closure
import Hx.Policy.Decide

/-!
# When a request is allowed

`Clears` collects the checks of `beforeGate` that name nothing an operator denied; a
request is allowed exactly when it clears them and no deny pattern has a reading that
matches one of its own.
-/

namespace Hx.Policy

open Hx.Java Hx.Library Hx.Bridge

variable {U : CaseMap} {req : HxRequest} {auth : Authorisation} {scope : Scope}
variable {t : Target} {excludes includes : List Rule}

/-- The rules are the patterns', each parsed. -/
theorem parseAll_ok {parse : JString → Except JString Rule} {patterns : List JString}
    {rules : List Rule} (h : parseAll parse patterns = .ok rules) (rule : Rule) :
    rule ∈ rules ↔ ∃ pattern ∈ patterns, parse pattern = .ok rule := by
  induction patterns generalizing rules with
  | nil =>
      cases h
      simp
  | cons pattern patterns ih =>
      unfold parseAll at h
      split at h
      · cases h
      · rename_i first parsed
        split at h
        · cases h
        · rename_i more rest
          cases h
          rw [List.mem_cons, ih rest]
          constructor
          · rintro (rfl | ⟨pattern', among, parsed'⟩)
            · exact ⟨pattern, .head _, parsed⟩
            · exact ⟨pattern', .tail _ among, parsed'⟩
          · rintro ⟨pattern', among, parsed'⟩
            obtain rfl | among := List.mem_cons.1 among
            · exact .inl (Except.ok.inj (parsed'.symm.trans parsed))
            · exact .inr ⟨pattern', among, parsed'⟩

theorem parseRules_ok (h : parseRules U scope = .ok (excludes, includes)) (rule : Rule) :
    (rule ∈ excludes ↔ ∃ pattern ∈ scopeList scope (js "scope.exclude"),
      Rule.forExclude U pattern = .ok rule) ∧
    (rule ∈ includes ↔ ∃ pattern ∈ scopeList scope (js "scope.include"),
      Rule.forInclude U pattern = .ok rule) := by
  unfold parseRules at h
  split at h
  · cases h
  · rename_i rules parsed
    split at h
    · cases h
    · rename_i more parsed'
      cases h
      exact ⟨parseAll_ok parsed rule, parseAll_ok parsed' rule⟩

/-- A parsed rule reads its path half the way its kind does, and its host half is a
hostname behind at most one wildcard label. -/
theorem Rule.parse_ok {pattern : JString} {allowRule : Bool} {rule : Rule}
    (h : Rule.parse U pattern allowRule = .ok rule) :
    rule.globReadings = (if allowRule then spellingReadings U rule.pathGlob
      else patternReadings U rule.pathGlob) ∧
    checkHostChars (if rule.hostSuffix then rule.hostPattern.drop 1 else rule.hostPattern)
      pattern = none := by
  simp only [Rule.parse] at h
  split at h
  · cases h
  · cases h
  · split at h
    · cases h
    · split at h
      · cases h
      · split at h
        · cases h
        · split at h
          · cases h
          · split at h
            · cases h
            · rename_i host
              cases h
              refine ⟨rfl, ?_⟩
              rw [← host]
              congr 1
              split <;> simp

/-- The target a request is decided about is its URL's, with the request's own host and
path. -/
theorem targetOf_ok (h : targetOf U req = .ok t) :
    Target.parse U req.url = .ok t ∧ t.host = lower U req.host ∧ t.path = req.path := by
  unfold targetOf at h
  split at h
  · cases h
  · rename_i parsed target
    split at h
    · cases h
    · rename_i host
      split at h
      · cases h
      · rename_i path
        cases h
        exact ⟨target, not_not.1 host, not_not.1 path⟩

/-- The readings the scope rules are matched against. -/
def pathReadings (U : CaseMap) (t : Target) : List JString :=
  readings U t.path (some (readingBudget t.path.length))

theorem overBudget_none (h : overBudget U req t (pathReadings U t) = none) :
    Worklist.within (some (readingBudget t.path.length)) (pathReadings U t).length = true := by
  by_contra outside
  have exceeds : readingBudget t.path.length < (pathReadings U t).length := by
    simpa [Worklist.within] using outside
  rw [overBudget, if_pos exceeds] at h
  cases h

/-- The checks that no deny pattern takes part in. -/
structure Clears (U : CaseMap) (req : HxRequest) (auth : Authorisation) (t : Target)
    (excludes includes : List Rule) : Prop where
  committed : auth.epoch ≠ 0
  decidable : undecidable req = none
  target : targetOf U req = .ok t
  configured : scopeList auth.scope (js "scope.include") ≠ []
  rules : parseRules U auth.scope = .ok (excludes, includes)
  budget : overBudget U req t (pathReadings U t) = none
  included : ∃ r ∈ includes, r.allows t (pathReadings U t) = true
  method : req.method ∈ allowedMethods auth.scope

/-- Some deny pattern has a reading that matches a reading of the request. -/
def DenyReading (U : CaseMap) (req : HxRequest) (auth : Authorisation) (t : Target)
    (excludes : List Rule) : Prop :=
  (∃ r ∈ excludes, r.denies U t (pathReadings U t) = true) ∨
    ∃ pattern ∈ dangerousPatterns auth.scope, dangerous U req pattern = true

theorem undecidable_denied {d : Decision} (h : undecidable req = some d) : d.allowed = false := by
  simp only [undecidable] at h
  split_ifs at h <;> cases h <;> rfl

theorem targetOf_denied {d : Decision} (h : targetOf U req = .error d) : d.allowed = false := by
  unfold targetOf at h
  split at h
  · cases h
    rfl
  · split at h
    · cases h
      rfl
    · split at h
      · cases h
        rfl
      · cases h

theorem overBudget_denied {d : Decision} (h : overBudget U req t (pathReadings U t) = some d) :
    d.allowed = false := by
  simp only [overBudget] at h
  split_ifs at h <;> cases h <;> rfl

theorem matchRules_allowed : (matchRules U req scope false t (pathReadings U t) excludes
      includes).allowed = true ↔
    (∀ r ∈ excludes, r.denies U t (pathReadings U t) = false) ∧
      ∃ r ∈ includes, r.allows t (pathReadings U t) = true := by
  unfold matchRules
  cases found : excludes.find? fun r => r.denies U t (pathReadings U t) with
  | some r =>
      have denied := List.find?_some found
      have among := List.mem_of_find?_eq_some found
      simp only [Decision.deny, Bool.false_eq_true, false_iff, not_and]
      intro none_
      rw [none_ r among] at denied
      cases denied
  | none =>
      have clear : ∀ r ∈ excludes, r.denies U t (pathReadings U t) = false := by
        simpa using List.find?_eq_none.1 found
      cases included : includes.any fun r => r.allows t (pathReadings U t) with
      | true => simpa [Decision.allow, List.any_eq_true.1 included] using clear
      | false =>
          have uncovered := List.any_eq_false.1 included
          simp [Decision.deny]
          simpa using fun _ => uncovered

/-- Scope holds a request that clears the scope checks and meets no exclusion. -/
theorem checkScope_allowed : (checkScope U req scope false).allowed = true ↔
    ∃ t excludes includes, undecidable req = none ∧ targetOf U req = .ok t ∧
      scopeList scope (js "scope.include") ≠ [] ∧
      parseRules U scope = .ok (excludes, includes) ∧
      overBudget U req t (pathReadings U t) = none ∧
      (∀ r ∈ excludes, r.denies U t (pathReadings U t) = false) ∧
      ∃ r ∈ includes, r.allows t (pathReadings U t) = true := by
  unfold checkScope
  cases undecided : undecidable req with
  | some d => simp [undecidable_denied undecided]
  | none =>
      cases target : targetOf U req with
      | error d => simp [targetOf_denied target]
      | ok t =>
          cases rules : parseRules U scope with
          | error e => by_cases empty : scopeList scope (js "scope.include") = [] <;>
              simp [empty, Decision.deny]
          | ok parsed =>
              obtain ⟨excludes, includes⟩ := parsed
              by_cases empty : scopeList scope (js "scope.include") = []
              · simp [empty, Decision.deny]
              · have named : readings U t.path (some (readingBudget t.path.length)) =
                    pathReadings U t := rfl
                cases budget : overBudget U req t (pathReadings U t) with
                | some d => simp [empty, named, budget, overBudget_denied budget]
                | none => simp [empty, named, budget, matchRules_allowed]

/-- What `beforeGate` asks after scope. -/
theorem beforeGate_allowed {renderAllow : Bool} : (beforeGate U req auth renderAllow).allowed = true ↔
    auth.epoch ≠ 0 ∧ (checkScope U req auth.scope renderAllow).allowed = true ∧
      req.method ∈ allowedMethods auth.scope ∧
      ∀ pattern ∈ dangerousPatterns auth.scope, dangerous U req pattern = false := by
  unfold beforeGate unusable
  by_cases committed : auth.epoch = 0
  · simp [committed, Decision.deny]
  · cases inScope : (checkScope U req auth.scope renderAllow).allowed with
    | false => simp [committed, inScope]
    | true =>
        by_cases method : req.method ∈ allowedMethods auth.scope
        · cases found : (dangerousPatterns auth.scope).find? (dangerous U req) with
          | some pattern =>
              have denied := List.find?_some found
              have among := List.mem_of_find?_eq_some found
              simp only [committed, inScope, method, Decision.deny]
              simp only [if_false, Bool.not_true, Bool.false_eq_true, not_true_eq_false, false_iff]
              rintro ⟨-, -, -, clear⟩
              exact absurd denied (by simp [clear pattern among])
          | none =>
              have clear := List.find?_eq_none.1 found
              simpa [committed, inScope, method, Decision.allow] using clear
        · simp [committed, inScope, method, Decision.deny]

/-- The spec of the decision before the gate. -/
theorem decideBeforeGate_allowed : (decideBeforeGate U req auth).allowed = true ↔
    ∃ t excludes includes, Clears U req auth t excludes includes ∧
      ¬ DenyReading U req auth t excludes := by
  rw [decideBeforeGate, beforeGate_allowed, checkScope_allowed]
  constructor
  · rintro ⟨committed, ⟨t, excludes, includes, decidable, target, configured, rules, budget,
      unexcluded, included⟩, method, harmless⟩
    refine ⟨t, excludes, includes, ⟨committed, decidable, target, configured, rules, budget,
      included, method⟩, ?_⟩
    rintro (⟨r, among, denied⟩ | ⟨pattern, among, denied⟩)
    · simp [unexcluded r among] at denied
    · simp [harmless pattern among] at denied
  · rintro ⟨t, excludes, includes, clears, undenied⟩
    refine ⟨clears.committed, ⟨t, excludes, includes, clears.decidable, clears.target,
      clears.configured, clears.rules, clears.budget, ?_, clears.included⟩, clears.method, ?_⟩
    · intro r among
      by_contra denied
      exact undenied (.inl ⟨r, among, by simpa using denied⟩)
    · intro pattern among
      by_contra denied
      exact undenied (.inr ⟨pattern, among, by simpa using denied⟩)

/-- A `GET` of the path on a host whose every path is included. -/
def getUnder (path : String) : HxRequest where
  method := js "GET"
  url := js "http://h.test" ++ js path
  host := js "h.test"
  path := js path
  query := []
  headers := []
  body := []

/-- One include, and the default deny patterns. -/
def including (pattern : String) : Authorisation := ⟨1, [(js "scope.include", [js pattern])]⟩

end Hx.Policy
