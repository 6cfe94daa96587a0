import Hx.Policy.Order

/-!
# Tightening an authorisation

More patterns to deny, fewer to allow: what is refused stays refused. A pattern that cannot be
parsed is never among those taken away, since it refuses on its own.
-/

namespace Hx.Policy

open Hx.Java Hx.Library Hx.Bridge

variable {U : CaseMap} {req : HxRequest} {auth auth' : Authorisation} {scope scope' : Scope}
variable {t : Target} {excludes includes : List Rule}

/-- The second list is the first with some entries taken out, each of which meets `P`. -/
inductive Pruned {α : Type} (P : α → Prop) : List α → List α → Prop where
  | nil : Pruned P [] []
  | keep {a : α} {old new : List α} (rest : Pruned P old new) : Pruned P (a :: old) (a :: new)
  | drop {a : α} {old new : List α} (meets : P a) (rest : Pruned P old new) :
      Pruned P (a :: old) new

/-- `Rule.forInclude` accepts the pattern. -/
def Parses (U : CaseMap) (pattern : JString) : Prop := ∃ r, Rule.forInclude U pattern = .ok r

/-- The second scope denies by at least the patterns of the first, allows by no others, and
keeps every pattern that cannot be parsed. -/
structure Tightens (U : CaseMap) (scope scope' : Scope) : Prop where
  excludes : scopeList scope (js "scope.exclude") ⊆ scopeList scope' (js "scope.exclude")
  dangerous : scopeList scope (js "dangerous.path") ⊆ scopeList scope' (js "dangerous.path")
  includes : Pruned (Parses U) (scopeList scope (js "scope.include"))
    (scopeList scope' (js "scope.include"))
  render : Pruned (Parses U) (scopeList scope (js "render.allow"))
    (scopeList scope' (js "render.allow"))
  methods : Option.Rel (fun old new => new ⊆ old) (scope.get (js "method.allow"))
    (scope'.get (js "method.allow"))

namespace Pruned

variable {α : Type} {P : α → Prop} {old new : List α}

theorem refl (l : List α) : Pruned P l l := by
  induction l with
  | nil => exact .nil
  | cons a l ih => exact .keep ih

theorem subset (h : Pruned P old new) : new ⊆ old := by
  induction h with
  | nil => exact List.Subset.refl _
  | keep _ ih => exact List.cons_subset_cons _ ih
  | drop _ _ ih => exact List.Subset.trans ih (List.subset_cons_self _ _)

/-- What does not meet `P` is kept. -/
theorem kept (h : Pruned P old new) {a : α} (mem : a ∈ old) (fails : ¬ P a) : a ∈ new := by
  induction h with
  | nil => exact absurd mem List.not_mem_nil
  | keep _ ih =>
      obtain rfl | later := List.mem_cons.1 mem
      · exact List.mem_cons_self
      · exact List.mem_cons_of_mem _ (ih later)
  | drop meets _ ih =>
      obtain rfl | later := List.mem_cons.1 mem
      · exact absurd meets fails
      · exact ih later

end Pruned

/-! ## What scope allows a crawler -/

theorem matchRules_allowed_render {render : Bool} :
    (matchRules U req scope render t (pathReadings U t) excludes includes).allowed = true ↔
      (∀ r ∈ excludes, r.denies U t (pathReadings U t) = false) ∧
        ((∃ r ∈ includes, r.allows t (pathReadings U t) = true) ∨ render = true ∧
          renderAllowed U t (pathReadings U t) (scopeList scope (js "render.allow")) =
            some .allow) := by
  unfold matchRules
  cases found : excludes.find? fun r => r.denies U t (pathReadings U t) with
  | some r =>
      refine iff_of_false Bool.false_ne_true fun ⟨clear, _⟩ => ?_
      have denied := List.find?_some found
      rw [clear r (List.mem_of_find?_eq_some found)] at denied
      exact absurd denied Bool.false_ne_true
  | none =>
      have clear : ∀ r ∈ excludes, r.denies U t (pathReadings U t) = false := by
        simpa using List.find?_eq_none.1 found
      rw [and_iff_right clear, ← List.any_eq_true]
      dsimp only
      by_cases inside : (includes.any fun r => r.allows t (pathReadings U t)) = true
      · rw [if_pos inside]
        exact iff_of_true rfl (.inl inside)
      · rw [if_neg inside]
        cases render with
        | false => exact iff_of_false Bool.false_ne_true fun h => h.elim inside nofun
        | true =>
            rw [if_pos rfl]
            obtain none_ | allow | ⟨detail, deny⟩ := renderAllowed_cases (pathReadings U t)
              (scopeList scope (js "render.allow")) (U := U) (t := t)
            · rw [none_]
              exact iff_of_false Bool.false_ne_true fun h => h.elim inside nofun
            · rw [allow]
              exact iff_of_true rfl (.inr ⟨rfl, rfl⟩)
            · rw [deny]
              refine iff_of_false Bool.false_ne_true fun h => h.elim inside fun ⟨_, same⟩ => ?_
              exact absurd (congrArg Decision.allowed (Option.some.inj same)) Bool.false_ne_true

/-- Scope, for a check and for the crawler. -/
theorem checkScope_allowed_render {render : Bool} : (checkScope U req scope render).allowed = true ↔
    ∃ t excludes includes, undecidable req = none ∧ targetOf U req = .ok t ∧
      scopeList scope (js "scope.include") ≠ [] ∧
      parseRules U scope = .ok (excludes, includes) ∧
      overBudget U req t (pathReadings U t) = none ∧
      (∀ r ∈ excludes, r.denies U t (pathReadings U t) = false) ∧
      ((∃ r ∈ includes, r.allows t (pathReadings U t) = true) ∨ render = true ∧
        renderAllowed U t (pathReadings U t) (scopeList scope (js "render.allow")) =
          some .allow) := by
  unfold checkScope
  cases undecided : undecidable req with
  | some d => simp [undecidable_denied undecided]
  | none =>
      cases target : targetOf U req with
      | error d => simp [targetOf_denied target]
      | ok t =>
          cases rules : parseRules U scope with
          | error e =>
              by_cases empty : scopeList scope (js "scope.include") = []
              · simp [empty, Decision.deny]
              · simp [empty, Decision.deny]
          | ok parsed =>
              obtain ⟨excludes, includes⟩ := parsed
              by_cases empty : scopeList scope (js "scope.include") = []
              · simp [empty, Decision.deny]
              · have named : readings U t.path (some (readingBudget t.path.length)) =
                    pathReadings U t := rfl
                cases budget : overBudget U req t (pathReadings U t) with
                | some d => simp [empty, named, budget, overBudget_denied budget]
                | none => simp [empty, named, budget, matchRules_allowed_render]

/-! ## Fewer patterns allow less -/

/-- Without some of its patterns, `render.allow` allows nothing it did not. -/
theorem renderAllowed_pruned {old new : List JString} {readings : List JString}
    (pruned : Pruned (Parses U) old new)
    (allowed : renderAllowed U t readings new = some .allow) :
    renderAllowed U t readings old = some .allow := by
  induction pruned with
  | nil => exact allowed
  | keep _ ih =>
      rename_i p old new _
      rw [renderAllowed] at allowed ⊢
      cases parsed : Rule.forInclude U p with
      | error e =>
          rw [parsed] at allowed
          exact absurd (congrArg Decision.allowed (Option.some.inj allowed)) Bool.false_ne_true
      | ok r =>
          rw [parsed] at allowed
          dsimp only at allowed ⊢
          by_cases allows : r.allows t readings = true
          · rw [if_pos allows]
          · rw [if_neg allows] at allowed ⊢
            exact ih allowed
  | drop meets _ ih =>
      obtain ⟨r, parsed⟩ := meets
      rw [renderAllowed, parsed]
      dsimp only
      by_cases allows : r.allows t readings = true
      · rw [if_pos allows]
      · rw [if_neg allows]
        exact ih allowed

namespace Tightens

/-- Where the tighter lists are all parsed, the looser ones are. -/
theorem parseRules (tighter : Tightens U scope scope')
    (rules : Policy.parseRules U scope' = .ok (excludes, includes)) :
    ∃ excludes' includes', Policy.parseRules U scope = .ok (excludes', includes') ∧
      (∀ r ∈ excludes', r ∈ excludes) ∧ ∀ r ∈ includes, r ∈ includes' := by
  obtain ⟨out, into⟩ := exists_parseRules.1 ⟨_, _, rules⟩
  have into' : ∀ p ∈ scopeList scope (js "scope.include"), Parses U p := by
    intro p mem
    by_contra fails
    exact fails (into p (tighter.includes.kept mem fails))
  obtain ⟨excludes', includes', rules'⟩ :=
    exists_parseRules.2 ⟨fun p mem => out p (tighter.excludes mem), into'⟩
  refine ⟨excludes', includes', rules', fun r mem => ?_, fun r mem => ?_⟩
  · obtain ⟨p, among, parsed⟩ := (parseRules_ok rules' r).1.1 mem
    exact (parseRules_ok rules r).1.2 ⟨p, tighter.excludes among, parsed⟩
  · obtain ⟨p, among, parsed⟩ := (parseRules_ok rules r).2.1 mem
    exact (parseRules_ok rules' r).2.2 ⟨p, tighter.includes.subset among, parsed⟩

theorem checkScope (tighter : Tightens U scope scope') {render : Bool}
    (allowed : (Policy.checkScope U req scope' render).allowed = true) :
    (Policy.checkScope U req scope render).allowed = true := by
  obtain ⟨t, excludes, includes, decidable, target, configured, rules, budget, outside, inside⟩ :=
    checkScope_allowed_render.1 allowed
  obtain ⟨excludes', includes', rules', fewer, more⟩ := tighter.parseRules rules
  refine checkScope_allowed_render.2 ⟨t, excludes', includes', decidable, target, ?_, rules',
    budget, fun r mem => outside r (fewer r mem), ?_⟩
  · intro empty
    have none_ := tighter.includes.subset
    rw [empty] at none_
    exact configured (List.subset_nil.1 none_)
  · obtain ⟨r, mem, allows⟩ | ⟨crawling, rendered⟩ := inside
    · exact .inl ⟨r, more r mem, allows⟩
    · exact .inr ⟨crawling, renderAllowed_pruned tighter.render rendered⟩

theorem mem_methods (tighter : Tightens U scope scope') {m : JString}
    (mem : m ∈ allowedMethods scope') : m ∈ allowedMethods scope := by
  rw [allowedMethods] at mem ⊢
  have rel := tighter.methods
  generalize scope.get (js "method.allow") = l, scope'.get (js "method.allow") = l' at rel mem ⊢
  cases rel with
  | none => exact mem
  | some fewer => exact fewer mem

theorem mem_dangerous (tighter : Tightens U scope scope') {p : JString}
    (mem : p ∈ dangerousPatterns scope) : p ∈ dangerousPatterns scope' := by
  rw [dangerousPatterns] at mem ⊢
  exact (List.mem_append.1 mem).elim (List.mem_append_left _)
    fun own => List.mem_append_right _ (tighter.dangerous own)

end Tightens

/-- A request that is refused before the gate is refused under every tighter authorisation,
whether a check asks or the crawler. -/
theorem refused_when_tightened (U : CaseMap) (req : HxRequest) (auth auth' : Authorisation)
    (render : Bool) (committed : 1 ≤ auth.epoch) (tighter : Tightens U auth.scope auth'.scope)
    (refused : (beforeGate U req auth render).allowed = false) :
    (beforeGate U req auth' render).allowed = false := by
  by_contra allowed
  rw [Bool.not_eq_false, beforeGate_allowed] at allowed
  obtain ⟨-, inScope, method, harmless⟩ := allowed
  refine Bool.eq_false_iff.1 refused (beforeGate_allowed.2 ⟨?_, tighter.checkScope inScope,
    tighter.mem_methods method, fun p mem => harmless p (tighter.mem_dangerous mem)⟩)
  exact Nat.one_le_iff_ne_zero.1 committed

/-- A first exclusion, on a request no include matches. -/
theorem refused_with_exclude :
    (beforeGate basicCase (getUnder "/") (including "http://x.test/*") true).allowed = false ∧
    (beforeGate basicCase (getUnder "/") ⟨1, [(js "scope.include", [js "http://x.test/*"]),
      (js "scope.exclude", [js "junk"])]⟩ true).allowed = false := by
  have refused : (beforeGate basicCase (getUnder "/") (including "http://x.test/*") true).allowed =
      false := by decide
  refine ⟨refused, refused_when_tightened basicCase (getUnder "/") (including "http://x.test/*")
    ⟨1, [(js "scope.include", [js "http://x.test/*"]), (js "scope.exclude", [js "junk"])]⟩ true
    (Nat.le_refl 1) ⟨?_, ?_, ?_, ?_, ?_⟩ refused⟩
  · exact List.nil_subset _
  · exact List.nil_subset _
  · exact .refl _
  · exact .refl _
  · exact .none

end Hx.Policy
