import Hx.Policy.LeastReadings
import Hx.Policy.Tightened

/-!
# The bound on a reading set never truncates one

A set built under a limit is the whole set or one member over the limit, and then nothing is
matched against it: the request is refused. What the rules and the dangerous paths are matched
against is always whole.
-/

namespace Hx.Policy

open Hx.Java Hx.Library Hx.Bridge

variable {U : CaseMap} {req : HxRequest} {auth : Authorisation} {scope : Scope}
variable {t : Target} {excludes includes : List Rule}

/-- The request gets as far as the rules of the scope. -/
structure ReachesRules (U : CaseMap) (req : HxRequest) (scope : Scope) (t : Target)
    (excludes includes : List Rule) : Prop where
  decidable : undecidable req = none
  target : targetOf U req = .ok t
  configured : scopeList scope (js "scope.include") ≠ []
  rules : parseRules U scope = .ok (excludes, includes)
  budget : overBudget U req t (pathReadings U t) = none

/-- What is matched is whole, and there is no more of it than the target's budget. -/
structure MatchesWhole (U : CaseMap) (req : HxRequest) (t : Target) : Prop where
  path : pathReadings U t = readings U req.path none
  query : req.query ≠ [] →
    queryReadings U req.query (some (readingBudget req.target.length)) =
      queryReadings U req.query none
  targets : (targetReadings U req).length ≤ readingBudget req.target.length

/-- A dangerous path is looked for only in a request that has been through the rules. -/
theorem reachesRules_of_allowed {render : Bool}
    (allowed : (checkScope U req scope render).allowed = true) :
    ∃ t excludes includes, ReachesRules U req scope t excludes includes := by
  obtain ⟨t, excludes, includes, decidable, target, configured, rules, budget, -⟩ :=
    checkScope_allowed_render.1 allowed
  exact ⟨t, excludes, includes, decidable, target, configured, rules, budget⟩

theorem length_target (query : req.query ≠ []) :
    req.target.length = req.path.length + req.query.length + 1 := by
  have some_ : req.query.isEmpty ≠ true := fun empty => query (List.isEmpty_iff.1 empty)
  rw [HxRequest.target, if_neg some_, List.length_append, List.length_append]
  exact Nat.add_right_comm _ _ _

theorem length_targetReadings (query : req.query ≠ []) : (targetReadings U req).length =
    (readings U req.path none).length * (queryReadings U req.query none).length := by
  have some_ : req.query.isEmpty ≠ true := fun empty => query (List.isEmpty_iff.1 empty)
  rw [targetReadings, if_neg some_, List.length_flatMap]
  simp

/-- A product within the budget is of whole sets. -/
theorem overBudget_product (query : req.query ≠ [])
    (h : overBudget U req t (pathReadings U t) = none) :
    (pathReadings U t).length *
        (queryReadings U req.query (some (readingBudget req.target.length))).length ≤
      readingBudget req.target.length := by
  have some_ : req.query.isEmpty ≠ true := fun empty => query (List.isEmpty_iff.1 empty)
  rw [overBudget] at h
  dsimp only at h
  rw [← length_target query, if_neg some_] at h
  split at h
  · cases h
  · split at h
    · cases h
    · rename_i small
      exact Nat.not_lt.1 small

namespace ReachesRules

theorem matchesWhole (h : ReachesRules U req scope t excludes includes) : MatchesWhole U req t := by
  have path : t.path = req.path := (targetOf_ok h.target).2.2
  have whole : readings U t.path none = pathReadings U t :=
    readings_none_of_within (overBudget_none h.budget)
  have paths : pathReadings U t = readings U req.path none := by
    rw [← whole, path]
  have queries : req.query ≠ [] →
      queryReadings U req.query (some (readingBudget req.target.length)) =
        queryReadings U req.query none := by
    intro query
    have product := overBudget_product query h.budget
    have positive : 0 < (pathReadings U t).length :=
      List.length_pos_of_mem (paths ▸ mem_readings_self)
    have small : (queryReadings U req.query (some (readingBudget req.target.length))).length ≤
        readingBudget req.target.length :=
      (Nat.le_mul_of_pos_left _ positive).trans product
    have within : Worklist.within (some (readingBudget req.target.length))
        (queryReadings U req.query (some (readingBudget req.target.length))).length = true :=
      decide_eq_true small
    exact (queryReadings_none_of_within within).symm
  refine ⟨paths, queries, ?_⟩
  by_cases query : req.query = []
  · have within := overBudget_none h.budget
    have small : (pathReadings U t).length ≤ readingBudget t.path.length :=
      of_decide_eq_true within
    rw [targetReadings, HxRequest.target, query, List.isEmpty_nil, if_pos rfl, if_pos rfl, ← paths,
      ← path]
    exact small
  · rw [length_targetReadings query, ← paths, ← queries query]
    exact overBudget_product query h.budget

end ReachesRules

/-- The limit is passed by at most one member, exactly when the whole set passes it, and
otherwise changes nothing; and every request that reaches the rules, as one whose target is
searched for dangerous paths has, is matched whole. -/
theorem bound_never_truncates (U : CaseMap) :
    (∀ path limit, (readings U path (some limit)).length ≤ limit + 1 ∧
      ((readings U path (some limit)).length = limit + 1 ↔
        limit < (readings U path none).length) ∧
      ((readings U path none).length ≤ limit →
        readings U path (some limit) = readings U path none)) ∧
    (∀ query limit, (queryReadings U query (some limit)).length ≤ limit + 1 ∧
      ((queryReadings U query (some limit)).length = limit + 1 ↔
        limit < (queryReadings U query none).length) ∧
      ((queryReadings U query none).length ≤ limit →
        queryReadings U query (some limit) = queryReadings U query none)) ∧
    (∀ req scope t excludes includes, ReachesRules U req scope t excludes includes →
      MatchesWhole U req t) ∧
    ∀ req scope render, (checkScope U req scope render).allowed = true →
      ∃ t excludes includes, ReachesRules U req scope t excludes includes := by
  refine ⟨fun path limit => ?_, fun query limit => ?_, fun req scope t excludes includes h => ?_,
    fun req scope render => reachesRules_of_allowed⟩
  · exact Worklist.run_limit (Nat.succ_le_succ (Nat.zero_le limit))
  · exact Worklist.run_limit (Nat.zero_le _)
  · exact h.matchesWhole

/-- A path with two readings, built no further than one, and matched whole under its budget. -/
theorem bound_at_work :
    (readings basicCase (js "/A") (some 5)).length = 2 ∧
    readings basicCase (js "/A") (some 5) = readings basicCase (js "/A") none ∧
    ∃ t excludes includes,
      ReachesRules basicCase (getUnder "/A") (including "http://h.test/*").scope t excludes
        includes ∧
      MatchesWhole basicCase (getUnder "/A") t := by
  have bounds := bound_never_truncates basicCase
  have inScope : (checkScope basicCase (getUnder "/A") (including "http://h.test/*").scope
      false).allowed = true := by decide
  have two : (readings basicCase (js "/A") (some 5)).length = 2 := by decide
  have small : (readings basicCase (js "/A") none).length ≤ 5 := by
    have cut := (bounds.1 (js "/A") 5).2.1
    rw [two] at cut
    by_contra more
    exact absurd (cut.2 (Nat.not_le.1 more)) (by decide)
  obtain ⟨t, excludes, includes, reaches⟩ := bounds.2.2.2 _ _ _ inScope
  exact ⟨two, (bounds.1 (js "/A") 5).2.2 small, t, excludes, includes, reaches,
    bounds.2.2.1 _ _ _ _ _ reaches⟩

end Hx.Policy
