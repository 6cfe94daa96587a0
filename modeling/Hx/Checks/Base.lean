import Mathlib.Data.List.Basic

/-!
# What a check speaks in

Insertion points, candidates and verdicts. The constructors of the source refuse what
they cannot hold; here the refusals are fields. A candidate's prose (title, description,
impact, remediation) is left out: nothing modelled reads it.
-/

namespace Hx.Checks

/-- `INSERTION_KINDS`. -/
inductive InsertionKind where
  | query
  | pathSegment
  | header
  | cookie
  | bodyForm
  | bodyJson
  deriving DecidableEq

structure Insertion where
  kind : InsertionKind
  name : String
  named : name ≠ ""
  deriving DecidableEq

inductive Severity where
  | critical
  | high
  | medium
  | low
  | info
  deriving DecidableEq

inductive Confidence where
  | certain
  | firm
  | tentative
  deriving DecidableEq

inductive ScopeLevel where
  | engagement
  | host
  | surface
  | insertion
  deriving DecidableEq

/-- An `issue_type_id`. -/
abbrev IssueType := { s : String // s ≠ "" }

structure Candidate where
  issueTypeId : IssueType
  severity : Severity
  confidence : Confidence
  insertion : Option Insertion
  exchangeIds : List String
  evidenced : exchangeIds ≠ [] ∧ "" ∉ exchangeIds
  scopeLevel : ScopeLevel := .surface
  cwe : Option String := none
  payload : Option String := none
  deriving DecidableEq

/-- What a check may say. `pending`, `skipped` and `error` are the runner's. -/
inductive Verdict where
  | clean (considered : List IssueType)
  | finding (candidates : List Candidate) (some_ : candidates ≠ []) (considered : List IssueType)
  | inconclusive (reason : String) (said : reason ≠ "")
  deriving DecidableEq

namespace Verdict

/-- The issue types a verdict says it examined; an inconclusive one names none. -/
def considered : Verdict → List IssueType
  | clean types => types
  | finding _ _ types => types
  | inconclusive _ _ => []

def candidates : Verdict → List Candidate
  | finding found _ _ => found
  | _ => []

end Verdict

end Hx.Checks
