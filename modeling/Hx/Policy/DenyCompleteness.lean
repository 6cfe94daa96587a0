import Hx.Policy.Verdict

/-!
# How complete the deny side is

`addReadings` says the reading set is closed under any sequence of the transforms. It is
closed under sequences of whole passes: a pass always resolves dot segments, merges empty
ones and folds case, so a form that some server routes on without resolving is a reading
only when it is the raw path. `Settled` names the sequences of whole passes.
-/

namespace Hx.Policy

open Hx.Java Hx.Library Hx.Bridge

variable {U : CaseMap} {req : HxRequest} {auth : Authorisation} {path : JString}
variable {limit : Option Nat} {ts : List Transform} {t : Target} {excludes includes : List Rule}

/-- A form of the path is matched by the path half of an exclusion of this destination. -/
def ExcludeMatches (U : CaseMap) (req : HxRequest) (auth : Authorisation) (form : JString) : Prop :=
  ∃ pattern ∈ scopeList auth.scope (js "scope.exclude"), ∃ rule t,
    Rule.forExclude U pattern = .ok rule ∧ Target.parse U req.url = .ok t ∧
    rule.authorityMatches t = true ∧ glob (lower U rule.pathGlob) (lower U form) = true

/-- A form of the path is matched by this dangerous pattern. -/
def DangerMatches (U : CaseMap) (pattern form : JString) : Prop :=
  glob (lower U pattern) (lower U form) = true

/-- Whatever a sequence of transforms makes of the path, a deny pattern that matches it
refuses the request. -/
def DenyComplete (U : CaseMap) (req : HxRequest) (auth : Authorisation) : Prop :=
  ∀ ts : List Transform,
    (ExcludeMatches U req auth (applyAll U ts req.path) ∨
      ∃ pattern ∈ dangerousPatterns auth.scope, DangerMatches U pattern (applyAll U ts req.path)) →
    (decideBeforeGate U req auth).allowed = false

/-! ## Sequences of whole passes -/

inductive Settled (U : CaseMap) : JString → List Transform → Prop where
  | done {s : JString} : Settled U s []
  | pass {s : JString} {ts : List Transform} (p : Pass) : p.Applies U s →
      Settled U (applyAll U p.transforms s) ts → Settled U s (p.transforms ++ ts)

theorem Settled.mem_readings (settled : Settled U path ts) {start : JString}
    (whole : Worklist.within limit (readings U start limit).length = true)
    (h : path ∈ readings U start limit) : applyAll U ts path ∈ readings U start limit := by
  induction settled with
  | done => exact h
  | @pass s ts p applies _ ih =>
      rw [applyAll_append]
      exact ih (readings_closed whole h (mem_derive.2 ⟨p, applies, rfl⟩))

/-! ## What a settled form meets -/

theorem mem_patternReadings_self (pattern : JString) : pattern ∈ patternReadings U pattern :=
  List.mem_append_left _ mem_readings_self

/-- An exclusion that matches a reading as it was typed denies it. -/
theorem Rule.denies_of_glob {pattern form : JString} {rule : Rule} {readings : List JString}
    (parsed : Rule.forExclude U pattern = .ok rule) (authority : rule.authorityMatches t = true)
    (matched : glob (lower U rule.pathGlob) (lower U form) = true) (h : form ∈ readings) :
    rule.denies U t readings = true := by
  have typed : rule.pathGlob ∈ rule.globReadings := by
    have reads := (Rule.parse_ok parsed).1
    rw [if_neg (by simp)] at reads
    exact reads ▸ mem_patternReadings_self _
  rw [Rule.denies, authority, Bool.true_and, List.any_eq_true]
  exact ⟨rule.pathGlob, typed, List.any_eq_true.2 ⟨form, h, matched⟩⟩

/-- A settled form of the path that an exclusion matches is denied. -/
theorem Clears.exclude_denies (clears : Clears U req auth t excludes includes)
    (settled : Settled U req.path ts) (h : ExcludeMatches U req auth (applyAll U ts req.path)) :
    ∃ r ∈ excludes, r.denies U t (pathReadings U t) = true := by
  obtain ⟨pattern, among, rule, t', parsed, target, authority, matched⟩ := h
  obtain ⟨target', -, path⟩ := targetOf_ok clears.target
  obtain rfl : t' = t := Except.ok.inj (target.symm.trans target')
  have excluded := (parseRules_ok clears.rules rule).1.2 ⟨pattern, among, parsed⟩
  refine ⟨rule, excluded, rule.denies_of_glob parsed authority matched ?_⟩
  exact settled.mem_readings (overBudget_none clears.budget) (path ▸ mem_readings_self)

/-- What a pattern that ends in a star matches of a path, it matches of every target with
that path. -/
theorem glob_target {pattern form query : JString} (matched : DangerMatches U pattern form)
    (starred : pattern.getLast? = some star) :
    glob (lower U pattern) (lower U (form ++ js "?" ++ query)) = true := by
  obtain ⟨body, rfl⟩ : ∃ body, pattern = body ++ [star] := by
    obtain ⟨body, last, rfl⟩ := (List.getLast?_eq_some_iff.1 starred)
    exact ⟨body, rfl⟩
  have question : (ch '?').val < 0x80 := by decide
  have folded : lower U (body ++ [star]) = lower U body ++ [star] := by
    rw [lower_append_ascii (by decide), lower_cons_ascii (by decide)]
    rfl
  have split : lower U (form ++ js "?" ++ query) = lower U form ++ lower U (ch '?' :: query) := by
    rw [List.append_assoc]
    exact lower_append_ascii question form query
  rw [DangerMatches, folded] at matched
  rw [folded, split]
  exact Glob.globMatches_iff.2 ((Glob.globMatches_iff.1 matched).append _)

theorem dangerous_of_settled {pattern : JString} (settled : Settled U req.path ts)
    (matched : DangerMatches U pattern (applyAll U ts req.path))
    (whole : req.query = [] ∨ pattern.getLast? = some star) : dangerous U req pattern = true := by
  have reading : applyAll U ts req.path ∈ readings U req.path none :=
    settled.mem_readings rfl mem_readings_self
  rw [dangerous, List.any_eq_true]
  refine ⟨pattern, mem_patternReadings_self pattern, List.any_eq_true.2 ?_⟩
  unfold targetReadings
  cases query : req.query with
  | nil => exact ⟨_, reading, matched⟩
  | cons c rest =>
      have starred := whole.resolve_left (by simp [query])
      have folded : lower U req.query ∈ queryReadings U req.query none := lower_mem_queryReadings
      refine ⟨applyAll U ts req.path ++ js "?" ++ lower U req.query, ?_,
        glob_target matched starred⟩
      rw [← query]
      simp only [List.isEmpty_iff, query, List.cons_ne_nil, if_false, List.mem_flatMap]
      exact ⟨_, reading, List.mem_map.2 ⟨_, query ▸ folded, rfl⟩⟩

/-! ## Exactly when the deny side is complete -/

/-- A deny pattern matches a form that no settled sequence reaches, or matches a dangerous
path without a star for the query that follows it. -/
def Missed (U : CaseMap) (req : HxRequest) (auth : Authorisation) : Prop :=
  ∃ ts : List Transform,
    (ExcludeMatches U req auth (applyAll U ts req.path) ∧ ¬ Settled U req.path ts) ∨
    ∃ pattern ∈ dangerousPatterns auth.scope, DangerMatches U pattern (applyAll U ts req.path) ∧
      ¬ (Settled U req.path ts ∧ (req.query = [] ∨ pattern.getLast? = some star))

end Hx.Policy
