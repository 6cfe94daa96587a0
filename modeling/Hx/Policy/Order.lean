import Hx.Policy.Verdict
import Mathlib.Data.List.Perm.Basic

/-!
# The order of the configured lists

What a request is answered is settled by what its lists hold. `render.allow` is the exception:
its patterns are parsed one at a time, so a pattern that cannot be parsed refuses the request
only when no pattern before it has allowed it.
-/

namespace Hx.Policy

open Hx.Java Hx.Library Hx.Bridge

variable {U : CaseMap} {req : HxRequest} {auth auth' : Authorisation} {scope scope' : Scope}
variable {t : Target} {excludes includes : List Rule}

/-- The lists that are permuted. -/
def listKeys : List JString :=
  [js "scope.include", js "scope.exclude", js "dangerous.path", js "method.allow",
    js "render.allow"]

/-- The same entries under each of the lists, in any order. -/
def Permuted (scope scope' : Scope) : Prop :=
  ∀ key ∈ listKeys, Option.Rel List.Perm (scope.get key) (scope'.get key)

/-- Allowed or not, and the class of the denial. -/
def Decision.answer (d : Decision) : Bool × Option JString := (d.allowed, d.errorClass)

/-- The three decisions answer as they do for any other order of the lists. -/
def OrderFree (U : CaseMap) (req : HxRequest) (auth : Authorisation) : Prop :=
  ∀ scope', Permuted auth.scope scope' →
    (decideBeforeGate U req auth).answer = (decideBeforeGate U req ⟨auth.epoch, scope'⟩).answer ∧
    (decideScopeOnly U req auth).answer = (decideScopeOnly U req ⟨auth.epoch, scope'⟩).answer ∧
    ∀ gate, (decideCrawl U gate req auth).answer =
      (decideCrawl U gate req ⟨auth.epoch, scope'⟩).answer

/-- The request is committed to scope, is not excluded and is not included. -/
structure ReachesRender (U : CaseMap) (req : HxRequest) (auth : Authorisation) (t : Target)
    (excludes includes : List Rule) : Prop where
  committed : auth.epoch ≠ 0
  decidable : undecidable req = none
  target : targetOf U req = .ok t
  configured : scopeList auth.scope (js "scope.include") ≠ []
  rules : parseRules U auth.scope = .ok (excludes, includes)
  budget : overBudget U req t (pathReadings U t) = none
  unexcluded : ∀ r ∈ excludes, r.denies U t (pathReadings U t) = false
  unincluded : ∀ r ∈ includes, r.allows t (pathReadings U t) = false

/-- When a request gets as far as `render.allow`, each of its patterns can be parsed or none of
them allows the request. -/
def Unmixed (U : CaseMap) (req : HxRequest) (auth : Authorisation) : Prop :=
  ∀ t excludes includes, ReachesRender U req auth t excludes includes →
    (∀ p ∈ scopeList auth.scope (js "render.allow"), ∃ r, Rule.forInclude U p = .ok r) ∨
      ∀ p ∈ scopeList auth.scope (js "render.allow"), ∀ r, Rule.forInclude U p = .ok r →
        r.allows t (pathReadings U t) = false

/-! ## Lists in another order -/

theorem Permuted.symm (h : Permuted scope scope') : Permuted scope' scope := by
  intro key mem
  have rel := h key mem
  generalize scope.get key = l, scope'.get key = l' at rel ⊢
  cases rel with
  | none => exact .none
  | some perm => exact .some perm.symm

theorem Permuted.perm (h : Permuted scope scope') (key : JString) (mem : key ∈ listKeys) :
    (scopeList scope key).Perm (scopeList scope' key) := by
  rw [scopeList, scopeList]
  have rel := h key mem
  generalize scope.get key = l, scope'.get key = l' at rel ⊢
  cases rel with
  | none => exact .refl _
  | some perm => exact perm

theorem Permuted.mem_methods (h : Permuted scope scope') (m : JString) :
    m ∈ allowedMethods scope ↔ m ∈ allowedMethods scope' := by
  rw [allowedMethods, allowedMethods]
  have rel := h (js "method.allow") (by decide)
  generalize scope.get (js "method.allow") = l, scope'.get (js "method.allow") = l' at rel ⊢
  cases rel with
  | none => exact Iff.rfl
  | some perm => exact perm.mem_iff

theorem Permuted.mem_dangerous (h : Permuted scope scope') (p : JString) :
    p ∈ dangerousPatterns scope ↔ p ∈ dangerousPatterns scope' := by
  have perm := h.perm (js "dangerous.path") (by decide)
  rw [dangerousPatterns, dangerousPatterns, List.mem_append, List.mem_append, perm.mem_iff]

/-- All patterns are parsed or none is, whatever their order. -/
theorem exists_parseAll {parse : JString → Except JString Rule} {patterns : List JString} :
    (∃ rules, parseAll parse patterns = .ok rules) ↔ ∀ p ∈ patterns, ∃ r, parse p = .ok r := by
  induction patterns with
  | nil => exact iff_of_true ⟨[], rfl⟩ fun _ mem => absurd mem List.not_mem_nil
  | cons pattern patterns ih =>
      rw [parseAll, List.forall_mem_cons, ← ih]
      cases first : parse pattern with
      | error e =>
          exact iff_of_false (fun ⟨_, all⟩ => nomatch all) fun ⟨⟨_, one⟩, _⟩ => nomatch one
      | ok rule =>
          cases rest : parseAll parse patterns with
          | error e => exact iff_of_false (fun ⟨_, all⟩ => nomatch all) fun ⟨_, _, more⟩ => nomatch more
          | ok rules => exact iff_of_true ⟨_, rfl⟩ ⟨⟨rule, rfl⟩, rules, rfl⟩

theorem exists_parseRules : (∃ excludes includes, parseRules U scope = .ok (excludes, includes)) ↔
    (∀ p ∈ scopeList scope (js "scope.exclude"), ∃ r, Rule.forExclude U p = .ok r) ∧
      ∀ p ∈ scopeList scope (js "scope.include"), ∃ r, Rule.forInclude U p = .ok r := by
  rw [← exists_parseAll, ← exists_parseAll, parseRules]
  cases first : parseAll (Rule.forExclude U) (scopeList scope (js "scope.exclude")) with
  | error e => exact iff_of_false (fun ⟨_, _, all⟩ => nomatch all) fun ⟨⟨_, one⟩, _⟩ => nomatch one
  | ok excludes =>
      cases second : parseAll (Rule.forInclude U) (scopeList scope (js "scope.include")) with
      | error e => exact iff_of_false (fun ⟨_, _, all⟩ => nomatch all) fun ⟨_, _, more⟩ => nomatch more
      | ok includes => exact iff_of_true ⟨excludes, includes, rfl⟩ ⟨⟨_, rfl⟩, _, rfl⟩

/-- Another order parses to the same rules. -/
theorem Permuted.parseRules (h : Permuted scope scope')
    (rules : Policy.parseRules U scope = .ok (excludes, includes)) :
    ∃ excludes' includes', Policy.parseRules U scope' = .ok (excludes', includes') ∧
      (∀ r, r ∈ excludes' ↔ r ∈ excludes) ∧ ∀ r, r ∈ includes' ↔ r ∈ includes := by
  have out := h.perm (js "scope.exclude") (by decide)
  have into := h.perm (js "scope.include") (by decide)
  obtain ⟨each, each'⟩ := exists_parseRules.1 ⟨_, _, rules⟩
  obtain ⟨excludes', includes', rules'⟩ := exists_parseRules.2
    ⟨fun p mem => each p (out.mem_iff.2 mem), fun p mem => each' p (into.mem_iff.2 mem)⟩
  refine ⟨excludes', includes', rules', fun r => ?_, fun r => ?_⟩
  · rw [(parseRules_ok rules r).1, (parseRules_ok rules' r).1]
    exact exists_congr fun p => and_congr_left fun _ => out.mem_iff.symm
  · rw [(parseRules_ok rules r).2, (parseRules_ok rules' r).2]
    exact exists_congr fun p => and_congr_left fun _ => into.mem_iff.symm

/-! ## Scope -/

/-- `render.allow` allows a request, denies it for scope, or has nothing to say. -/
theorem renderAllowed_cases (readings : List JString) (patterns : List JString) :
    renderAllowed U t readings patterns = none ∨
      renderAllowed U t readings patterns = some .allow ∨
      ∃ detail, renderAllowed U t readings patterns = some (.deny (js "scope_denied") detail) := by
  induction patterns with
  | nil => exact .inl rfl
  | cons pattern patterns ih =>
      rw [renderAllowed]
      cases Rule.forInclude U pattern with
      | error e => exact .inr (.inr ⟨_, rfl⟩)
      | ok r =>
          by_cases allows : r.allows t readings = true
          · exact .inr (.inl (if_pos allows))
          · simpa only [if_neg allows] using ih

theorem matchRules_cases {render : Bool} {readings : List JString} :
    matchRules U req scope render t readings excludes includes = .allow ∨
      ∃ detail, matchRules U req scope render t readings excludes includes =
        .deny (js "scope_denied") detail := by
  unfold matchRules
  cases excludes.find? fun r => r.denies U t readings with
  | some r => exact .inr ⟨_, rfl⟩
  | none =>
      dsimp only
      split_ifs
      · exact .inl rfl
      · obtain none_ | allow | ⟨detail, deny⟩ :=
          renderAllowed_cases readings (scopeList scope (js "render.allow")) (U := U) (t := t)
        · rw [none_]
          exact .inr ⟨_, rfl⟩
        · rw [allow]
          exact .inl rfl
        · rw [deny]
          exact .inr ⟨_, rfl⟩
      · exact .inr ⟨_, rfl⟩

/-- Every denial of scope has one class, and an allowed request has none. -/
theorem checkScope_answer (req : HxRequest) (scope : Scope) (render : Bool) :
    (checkScope U req scope render).answer =
      if (checkScope U req scope render).allowed then (true, none)
      else (false, some (js "scope_denied")) := by
  have cases_ : checkScope U req scope render = .allow ∨
      ∃ detail, checkScope U req scope render = .deny (js "scope_denied") detail := by
    unfold checkScope
    cases undecided : undecidable req with
    | some d =>
        simp only [undecidable] at undecided
        split_ifs at undecided <;> cases undecided <;> exact .inr ⟨_, rfl⟩
    | none =>
        cases target : targetOf U req with
        | error d =>
            unfold targetOf at target
            split at target
            · cases target
              exact .inr ⟨_, rfl⟩
            · split_ifs at target <;> cases target <;> exact .inr ⟨_, rfl⟩
        | ok t =>
            dsimp only
            split_ifs
            · exact .inr ⟨_, rfl⟩
            · cases rules : Policy.parseRules U scope with
              | error e => exact .inr ⟨_, rfl⟩
              | ok parsed =>
                  dsimp only
                  cases over_ : overBudget U req t _ with
                  | some d =>
                      simp only [overBudget] at over_
                      split_ifs at over_ <;> cases over_ <;> exact .inr ⟨_, rfl⟩
                  | none => exact matchRules_cases
  obtain allow | ⟨detail, deny⟩ := cases_
  · rw [allow]
    rfl
  · rw [deny]
    rfl

/-! ## What reaches `render.allow` -/

namespace ReachesRender

theorem checkScope (h : ReachesRender U req auth t excludes includes) :
    Policy.checkScope U req auth.scope true =
      (renderAllowed U t (pathReadings U t) (scopeList auth.scope (js "render.allow"))).getD
        (.deny (js "scope_denied") (req.url ++ js " matches no scope.include pattern")) := by
  have listed : (scopeList auth.scope (js "scope.include")).isEmpty ≠ true := fun empty =>
    h.configured (List.isEmpty_iff.1 empty)
  have outside : (excludes.find? fun r => r.denies U t (pathReadings U t)) = none :=
    List.find?_eq_none.2 fun r mem => by simp [h.unexcluded r mem]
  have none_ : (includes.any fun r => r.allows t (pathReadings U t)) ≠ true := by
    refine Bool.eq_false_iff.1 (List.any_eq_false.2 fun r mem => ?_)
    rw [h.unincluded r mem]
    exact Bool.false_ne_true
  have budget := h.budget
  rw [Policy.checkScope, h.decidable, h.target]
  dsimp only
  rw [if_neg listed, h.rules]
  dsimp only
  rw [pathReadings] at budget outside none_
  rw [budget]
  dsimp only
  rw [matchRules, outside]
  dsimp only
  rw [if_neg none_, if_pos rfl]
  rfl

/-- Another order reaches it as well. -/
theorem permuted (h : ReachesRender U req auth t excludes includes)
    (perm : Permuted auth.scope scope') : ∃ excludes' includes',
      ReachesRender U req ⟨auth.epoch, scope'⟩ t excludes' includes' := by
  obtain ⟨excludes', includes', rules, out, into⟩ := perm.parseRules h.rules
  refine ⟨excludes', includes', {
    committed := h.committed
    decidable := h.decidable
    target := h.target
    configured := fun empty => h.configured ?_
    rules := rules
    budget := h.budget
    unexcluded := fun r mem => h.unexcluded r ((out r).1 mem)
    unincluded := fun r mem => h.unincluded r ((into r).1 mem) }⟩
  have same := perm.perm (js "scope.include") (by decide)
  have empty' : scopeList scope' (js "scope.include") = [] := empty
  rw [empty'] at same
  exact same.eq_nil

end ReachesRender

/-- Where a request does not get that far, `render.allow` is not read. -/
theorem checkScope_of_not_reaches (auth : Authorisation) (committed : auth.epoch ≠ 0)
    (h : ∀ t excludes includes, ¬ ReachesRender U req auth t excludes includes) :
    checkScope U req auth.scope true = checkScope U req auth.scope false := by
  unfold checkScope
  cases decidable : undecidable req with
  | some d => rfl
  | none =>
      cases target : targetOf U req with
      | error d => rfl
      | ok t =>
          dsimp only
          by_cases configured : (scopeList auth.scope (js "scope.include")).isEmpty = true
          · rw [if_pos configured, if_pos configured]
          · rw [if_neg configured, if_neg configured]
            cases rules : parseRules U auth.scope with
            | error e => rfl
            | ok parsed =>
                obtain ⟨excludes, includes⟩ := parsed
                have named : readings U t.path (some (readingBudget t.path.length)) =
                  pathReadings U t := rfl
                dsimp only
                rw [named]
                cases budget : overBudget U req t (pathReadings U t) with
                | some d => rfl
                | none =>
                    dsimp only
                    rw [matchRules, matchRules]
                    cases outside : excludes.find? fun r => r.denies U t (pathReadings U t) with
                    | some r => rfl
                    | none =>
                        dsimp only
                        by_cases inside : (includes.any fun r =>
                            r.allows t (pathReadings U t)) = true
                        · rw [if_pos inside, if_pos inside]
                        · refine absurd ⟨committed, decidable, target, ?_, rules, budget, ?_, ?_⟩
                            (h t excludes includes)
                          · exact fun empty => configured (List.isEmpty_iff.2 empty)
                          · simpa using List.find?_eq_none.1 outside
                          · simpa using inside

/-! ## Answers -/

/-- What settles the answer before the gate. -/
theorem beforeGate_answer (render : Bool) :
    (beforeGate U req auth render).answer =
      if auth.epoch = 0 then (false, some (js "not_configured"))
      else if !(checkScope U req auth.scope render).allowed then (false, some (js "scope_denied"))
      else if req.method ∉ allowedMethods auth.scope then (false, some (js "method_denied"))
      else if (dangerousPatterns auth.scope).any (dangerous U req) then
        (false, some (js "dangerous_denied"))
      else (true, none) := by
  unfold beforeGate unusable
  by_cases committed : auth.epoch = 0
  · rw [if_pos committed, if_pos committed]
    rfl
  · rw [if_neg committed, if_neg committed]
    dsimp only
    by_cases inScope : (!(checkScope U req auth.scope render).allowed) = true
    · have answer := checkScope_answer (U := U) req auth.scope render
      have denied : (checkScope U req auth.scope render).allowed = false := by simpa using inScope
      rw [if_pos inScope, if_pos inScope, answer, denied]
      rfl
    · rw [if_neg inScope, if_neg inScope]
      by_cases method : req.method ∉ allowedMethods auth.scope
      · rw [if_pos method, if_pos method]
        rfl
      · rw [if_neg method, if_neg method]
        cases found : (dangerousPatterns auth.scope).find? (dangerous U req) with
        | some p =>
            have some_ : (dangerousPatterns auth.scope).any (dangerous U req) = true :=
              List.any_eq_true.2 ⟨p, List.mem_of_find?_eq_some found, List.find?_some found⟩
            rw [if_pos some_]
            rfl
        | none =>
            have none_ : ¬ (dangerousPatterns auth.scope).any (dangerous U req) = true := by
              rw [Bool.not_eq_true, List.any_eq_false]
              exact List.find?_eq_none.1 found
            rw [if_neg none_]
            rfl

theorem Permuted.beforeGate (perm : Permuted auth.scope scope') {render : Bool}
    (inScope : (checkScope U req auth.scope render).allowed =
      (checkScope U req scope' render).allowed) :
    (beforeGate U req auth render).answer = (beforeGate U req ⟨auth.epoch, scope'⟩ render).answer := by
  have harm : (dangerousPatterns auth.scope).any (dangerous U req) =
      (dangerousPatterns scope').any (dangerous U req) := by
    rw [Bool.eq_iff_iff, List.any_eq_true, List.any_eq_true]
    exact exists_congr fun p => and_congr_left fun _ => perm.mem_dangerous p
  rw [beforeGate_answer, beforeGate_answer, inScope, harm]
  simp only [perm.mem_methods req.method]

theorem Permuted.checkScope_allowed (perm : Permuted auth.scope scope')
    (allowed : (checkScope U req auth.scope false).allowed = true) :
    (checkScope U req scope' false).allowed = true := by
  obtain ⟨t, excludes, includes, decidable, target, configured, rules, budget, outside, inside⟩ :=
    Policy.checkScope_allowed.1 allowed
  obtain ⟨excludes', includes', rules', out, into⟩ := perm.parseRules rules
  have same := perm.perm (js "scope.include") (by decide)
  refine Policy.checkScope_allowed.2 ⟨t, excludes', includes', decidable, target, ?_, rules',
    budget, fun r mem => outside r ((out r).1 mem), ?_⟩
  · intro empty
    rw [empty] at same
    exact configured same.eq_nil
  · obtain ⟨r, mem, allows⟩ := inside
    exact ⟨r, (into r).2 mem, allows⟩

/-- The operator's scope does not see the order. -/
theorem Permuted.checkScope (perm : Permuted auth.scope scope') :
    (Policy.checkScope U req auth.scope false).allowed =
      (Policy.checkScope U req scope' false).allowed := by
  have back : Permuted (⟨auth.epoch, scope'⟩ : Authorisation).scope auth.scope := perm.symm
  rw [Bool.eq_iff_iff]
  exact ⟨perm.checkScope_allowed, back.checkScope_allowed⟩

/-! ## `render.allow` -/

/-- Patterns that can all be parsed allow what one of them allows. -/
theorem renderAllowed_of_parsed (readings : List JString) {patterns : List JString}
    (parsed : ∀ p ∈ patterns, ∃ r, Rule.forInclude U p = .ok r) :
    renderAllowed U t readings patterns = some .allow ∧
        (∃ p ∈ patterns, ∃ r, Rule.forInclude U p = .ok r ∧ r.allows t readings = true) ∨
      renderAllowed U t readings patterns = none ∧
        ∀ p ∈ patterns, ∀ r, Rule.forInclude U p = .ok r → r.allows t readings = false := by
  induction patterns with
  | nil => exact .inr ⟨rfl, fun _ mem => absurd mem List.not_mem_nil⟩
  | cons p patterns ih =>
      obtain ⟨r, first⟩ := parsed p List.mem_cons_self
      rw [renderAllowed, first]
      dsimp only
      by_cases allows : r.allows t readings = true
      · exact .inl ⟨if_pos allows, p, List.mem_cons_self, r, first, allows⟩
      · rw [if_neg allows]
        obtain ⟨allow, q, mem, rest⟩ | ⟨nothing, none_⟩ :=
          ih fun q mem => parsed q (List.mem_cons_of_mem _ mem)
        · exact .inl ⟨allow, q, List.mem_cons_of_mem _ mem, rest⟩
        · refine .inr ⟨nothing, List.forall_mem_cons.2 ⟨fun r' again => ?_, none_⟩⟩
          rw [← Except.ok.inj (first.symm.trans again)]
          exact Bool.eq_false_iff.2 allows

/-- Patterns that allow nothing do not allow, parsed or not. -/
theorem renderAllowed_of_none {readings : List JString} {patterns : List JString}
    (none_ : ∀ p ∈ patterns, ∀ r, Rule.forInclude U p = .ok r → r.allows t readings = false) :
    renderAllowed U t readings patterns ≠ some .allow := by
  induction patterns with
  | nil => exact fun same => nomatch same
  | cons p patterns ih =>
      rw [renderAllowed]
      cases first : Rule.forInclude U p with
      | error e => exact fun same => nomatch congrArg Decision.allowed (Option.some.inj same)
      | ok r =>
          dsimp only
          rw [none_ p List.mem_cons_self r first, if_neg Bool.false_ne_true]
          exact ih fun q mem => none_ q (List.mem_cons_of_mem _ mem)

namespace ReachesRender

/-- A request that gets there is allowed when `render.allow` allows it. -/
theorem allowed_iff (h : ReachesRender U req auth t excludes includes) :
    (Policy.checkScope U req auth.scope true).allowed = true ↔
      renderAllowed U t (pathReadings U t) (scopeList auth.scope (js "render.allow")) =
        some .allow := by
  rw [h.checkScope]
  obtain none_ | allow | ⟨detail, deny⟩ := renderAllowed_cases (pathReadings U t)
    (scopeList auth.scope (js "render.allow")) (U := U) (t := t)
  · rw [none_]
    exact iff_of_false Bool.false_ne_true fun same => nomatch same
  · rw [allow]
    exact iff_of_true rfl rfl
  · rw [deny]
    exact iff_of_false Bool.false_ne_true fun same =>
      nomatch congrArg Decision.allowed (Option.some.inj same)

end ReachesRender

/-- Where the patterns are not mixed, the crawler's scope does not see the order either. -/
theorem Permuted.checkScope_render (perm : Permuted auth.scope scope') (committed : auth.epoch ≠ 0)
    (unmixed : Unmixed U req auth) :
    (Policy.checkScope U req auth.scope true).allowed =
      (Policy.checkScope U req scope' true).allowed := by
  have back : Permuted (⟨auth.epoch, scope'⟩ : Authorisation).scope auth.scope := perm.symm
  by_cases reaches : ∃ t excludes includes, ReachesRender U req auth t excludes includes
  · obtain ⟨t, excludes, includes, h⟩ := reaches
    obtain ⟨excludes', includes', h'⟩ := h.permuted perm
    have listed := perm.perm (js "render.allow") (by decide)
    have allowed' := h'.allowed_iff
    rw [Bool.eq_iff_iff, h.allowed_iff, allowed']
    obtain parsed | none_ := unmixed t excludes includes h
    · have parsed' : ∀ p ∈ scopeList scope' (js "render.allow"), ∃ r, Rule.forInclude U p = .ok r :=
        fun p mem => parsed p (listed.mem_iff.2 mem)
      obtain ⟨allow, p, mem, r, one, allows⟩ | ⟨nothing, none_⟩ :=
        renderAllowed_of_parsed (t := t) (pathReadings U t) parsed
      · obtain ⟨allow', -⟩ | ⟨-, none'⟩ :=
          renderAllowed_of_parsed (t := t) (pathReadings U t) parsed'
        · exact iff_of_true allow allow'
        · rw [none' p (listed.mem_iff.1 mem) r one] at allows
          exact absurd allows Bool.false_ne_true
      · refine iff_of_false (fun same => nomatch nothing.symm.trans same) ?_
        exact renderAllowed_of_none fun p mem => none_ p (listed.mem_iff.2 mem)
    · exact iff_of_false (renderAllowed_of_none none_)
        (renderAllowed_of_none fun p mem => none_ p (listed.mem_iff.2 mem))
  · have away : ∀ t excludes includes, ¬ ReachesRender U req auth t excludes includes :=
      fun t excludes includes h => reaches ⟨t, excludes, includes, h⟩
    have away' : ∀ t excludes includes,
        ¬ ReachesRender U req ⟨auth.epoch, scope'⟩ t excludes includes := by
      intro t excludes includes h
      obtain ⟨excludes', includes', h'⟩ := h.permuted back
      exact away t excludes' includes' h'
    have first := checkScope_of_not_reaches auth committed away
    have second := checkScope_of_not_reaches ⟨auth.epoch, scope'⟩ committed away'
    rw [first, second, perm.checkScope]

/-- One entry in front of the others. -/
theorem permuted_front {first : JString}
    (mem : first ∈ scopeList auth.scope (js "render.allow")) : ∃ rest,
      Permuted auth.scope ((js "render.allow", first :: rest) :: auth.scope) ∧
      scopeList ((js "render.allow", first :: rest) :: auth.scope) (js "render.allow") =
        first :: rest := by
  have present : ∃ l, auth.scope.get (js "render.allow") = some l ∧ first ∈ l := by
    rw [scopeList] at mem
    cases found : auth.scope.get (js "render.allow") with
    | none =>
        rw [found] at mem
        exact absurd mem List.not_mem_nil
    | some l =>
        rw [found] at mem
        exact ⟨l, rfl, mem⟩
  obtain ⟨l, found, inside⟩ := present
  refine ⟨l.erase first, fun key _ => ?_, rfl⟩
  by_cases same : key = js "render.allow"
  · rw [same, found]
    exact .some (List.perm_cons_erase inside)
  · have other : Scope.get ((js "render.allow", first :: l.erase first) :: auth.scope) key =
        auth.scope.get key := by
      rw [Scope.get, List.lookup_cons, beq_eq_false_iff_ne.2 same]
      rfl
    rw [other]
    cases auth.scope.get key with
    | none => exact .none
    | some l => exact .some (.refl l)

/-! ## The order of the lists -/

theorem decideCrawl_answer (gate : GateAnswer) (req : HxRequest) (auth : Authorisation) :
    (decideCrawl U gate req auth).answer =
      if (beforeGate U req auth true).answer.1 then (checkGate gate).answer
      else (beforeGate U req auth true).answer := by
  unfold decideCrawl
  dsimp only
  cases allowed : (beforeGate U req auth true).allowed with
  | false =>
      have denied : (beforeGate U req auth true).answer.1 = false := allowed
      have stopped : (!false) = true := rfl
      rw [denied, if_pos stopped, if_neg Bool.false_ne_true]
  | true =>
      have passed : (beforeGate U req auth true).answer.1 = true := allowed
      have goes_on : ¬ (!true) = true := Bool.false_ne_true
      rw [passed, if_pos rfl, if_neg goes_on]

/-- The three decisions do not see the order of the lists exactly where `render.allow` is not
mixed. -/
theorem order_free_iff (U : CaseMap) (req : HxRequest) (auth : Authorisation) :
    OrderFree U req auth ↔ Unmixed U req auth := by
  constructor
  · intro free t excludes includes h
    by_contra mixed
    rw [not_or] at mixed
    obtain ⟨bad, allowing⟩ := mixed
    push Not at bad allowing
    obtain ⟨b, mem, broken⟩ := bad
    obtain ⟨g, mem', r, parsed, allows⟩ := allowing
    -- The pattern that allows goes first, and then the one that cannot be parsed.
    obtain ⟨rest, perm, listed⟩ := permuted_front mem'
    obtain ⟨rest', perm', listed'⟩ := permuted_front mem
    obtain ⟨_, _, first⟩ := h.permuted perm
    obtain ⟨_, _, second⟩ := h.permuted perm'
    have open_ := first.allowed_iff.2 (by
      show renderAllowed U t _ (scopeList _ _) = _
      rw [listed, renderAllowed, parsed]
      exact if_pos (Bool.not_eq_false _ ▸ allows))
    have shut : (checkScope U req ((js "render.allow", b :: rest') :: auth.scope) true).allowed =
        false := by
      refine Bool.eq_false_iff.2 fun allowed => ?_
      have through := second.allowed_iff.1 allowed
      have head : ∃ e, Rule.forInclude U b = .error e := by
        cases one : Rule.forInclude U b with
        | error e => exact ⟨e, rfl⟩
        | ok r => exact absurd one (broken r)
      obtain ⟨e, head⟩ := head
      have list : scopeList (Authorisation.mk auth.epoch
          ((js "render.allow", b :: rest') :: auth.scope)).scope (js "render.allow") =
        b :: rest' := listed'
      rw [list, renderAllowed, head] at through
      exact nomatch congrArg Decision.allowed (Option.some.inj through)
    have same := ((free _ perm).2.2 (.decides .allow)).symm.trans
      ((free _ perm').2.2 (.decides .allow))
    rw [decideCrawl_answer, decideCrawl_answer, beforeGate_answer, beforeGate_answer] at same
    dsimp only at same
    rw [if_neg h.committed, if_neg h.committed, open_, shut] at same
    simp only [Bool.not_true, Bool.not_false, if_pos, Bool.false_eq_true, if_false] at same
    split_ifs at same <;> simp [Decision.answer, checkGate, Decision.allow] at same
    all_goals exact absurd same (by decide)
  · intro unmixed scope' perm
    have plain : (checkScope U req auth.scope false).allowed =
        (checkScope U req scope' false).allowed := perm.checkScope
    have before : (decideBeforeGate U req auth).answer =
        (decideBeforeGate U req ⟨auth.epoch, scope'⟩).answer := perm.beforeGate plain
    refine ⟨before, ?_, fun gate => ?_⟩
    · unfold decideScopeOnly unusable
      by_cases committed : auth.epoch = 0
      · rw [if_pos committed]
      · rw [if_neg committed]
        dsimp only
        rw [checkScope_answer, checkScope_answer, plain]
    · have crawl : (beforeGate U req auth true).answer =
          (beforeGate U req ⟨auth.epoch, scope'⟩ true).answer := by
        by_cases committed : auth.epoch = 0
        · have other : (⟨auth.epoch, scope'⟩ : Authorisation).epoch = 0 := committed
          rw [beforeGate_answer, beforeGate_answer, if_pos committed, if_pos other]
        · exact perm.beforeGate (perm.checkScope_render committed unmixed)
      rw [decideCrawl_answer, decideCrawl_answer, crawl]

/-- A page's host that only `render.allow` names, beside a pattern with no scheme. -/
def rendering (first second : String) : Authorisation :=
  ⟨1, [(js "scope.include", [js "http://a.test/*"]),
    (js "render.allow", [js first, js second])]⟩

/-- The crawler may load the page or not, by which line of `render.allow` was typed first. -/
theorem first_line_decides :
    ¬ OrderFree basicCase (getUnder "/a") (rendering "http://h.test/*" "h.test") := by
  intro free
  have perm : Permuted (rendering "http://h.test/*" "h.test").scope
      (rendering "h.test" "http://h.test/*").scope := by
    have each : ∀ key ∈ listKeys,
        (rendering "http://h.test/*" "h.test").scope.get key =
          (rendering "h.test" "http://h.test/*").scope.get key ∨
        key = js "render.allow" := by decide
    intro key mem
    obtain same | rfl := each key mem
    · rw [same]
      cases (rendering "h.test" "http://h.test/*").scope.get key with
      | none => exact .none
      | some l => exact .some (.refl l)
    · exact .some (.swap _ _ _)
  have same := (free _ perm).2.2 (.decides .allow)
  revert same
  decide +kernel

end Hx.Policy
