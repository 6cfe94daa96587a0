import Hx.Bridge.Frame
import Hx.Policy.Rule

/-!
# The decision before the gate

`decideBeforeGate` answers a request under one authorisation: not_configured, then scope,
then the method, then the dangerous paths. An authorisation is a pair of values here, so
the null snapshots that `malformation` answers do not exist.
-/

namespace Hx.Policy

open Hx.Java Hx.Library Hx.Bridge

variable (U : CaseMap)

structure HxRequest where
  method : JString
  url : JString
  host : JString
  path : JString
  query : JString
  headers : List (JString × List JString)
  body : List UInt8

/-- The origin-form target. -/
def HxRequest.target (r : HxRequest) : JString :=
  if r.query.isEmpty then r.path else r.path ++ js "?" ++ r.query

structure Decision where
  allowed : Bool
  errorClass : Option JString
  detail : Option JString
  retryAfterUs : Int64
  deriving DecidableEq

namespace Decision

def allow : Decision := ⟨true, none, none, 0⟩

def deny (errorClass detail : JString) : Decision := ⟨false, some errorClass, some detail, 0⟩

def rateLimited (retryAfterUs : Int64) (detail : JString) : Decision :=
  ⟨false, some (js "rate_limited"), some detail, retryAfterUs⟩

end Decision

def defaultMethods : List JString := [js "GET", js "HEAD", js "OPTIONS"]

def defaultDangerous : List JString :=
  [js "*/logout*", js "*=logout*", js "*/signout*", js "*=signout*", js "*/sign-out*",
    js "*=sign-out*", js "*/password*", js "*=password*", js "*/delete*", js "*=delete*",
    js "*/purge*", js "*=purge*"]

/-- `List.toString`. -/
def listText (items : List JString) : JString := js "[" ++ (js ", ").intercalate items ++ js "]"

def numberText (n : Nat) : JString := js (toString n)

/-- `getOrDefault`. -/
def scopeList (scope : Scope) (key : JString) : List JString := (scope.get key).getD []

/-! ## Bounds -/

def maxTargetChars : Nat := 8192
def maxReadings : Nat := 64
def maxReadingChars : Nat := 128 * 1024

def readingBudget (length : Nat) : Nat :=
  max 1 (min maxReadings (maxReadingChars / max 1 length))

/-- The denial for a request too long or too deeply encoded to decide about. -/
def undecidable (req : HxRequest) : Option Decision :=
  let size := req.path.length + req.query.length
  if maxTargetChars < size then
    some (.deny (js "scope_denied") (js "request target is " ++ numberText size ++
      js " characters, over the " ++ numberText maxTargetChars ++ js " this can decide about"))
  else if !decodesFully req.path || !decodesFully req.query then
    some (.deny (js "scope_denied") (js "request target is still percent-encoded after " ++
      numberText maxDecodeRounds ++ js " rounds of decoding"))
  else none

/-- An authorisation nobody committed. -/
def unusable (auth : Authorisation) : Option Decision :=
  if auth.epoch = 0 then
    some (.deny (js "not_configured") (js "no configure frame acknowledged yet"))
  else none

/-! ## Scope -/

/-- The patterns in order, or the first that cannot be parsed. -/
def parseAll (parse : JString → Except JString Rule) : List JString → Except JString (List Rule)
  | [] => .ok []
  | pattern :: rest =>
      match parse pattern with
      | .error e => .error e
      | .ok rule => match parseAll parse rest with
        | .error e => .error e
        | .ok rules => .ok (rule :: rules)

/-- The URL's target, when it is the connection's host and the request's path. -/
def targetOf (req : HxRequest) : Except Decision Target :=
  match Target.parse U req.url with
  | .error e => .error (.deny (js "scope_denied") e)
  | .ok t =>
      if t.host ≠ lower U req.host then
        .error (.deny (js "scope_denied") (js "url authority host " ++ t.host ++
          js " is not the connection host " ++ req.host))
      else if t.path ≠ req.path then
        .error (.deny (js "scope_denied") (js "url path " ++ t.path ++
          js " is not the request path " ++ req.path))
      else .ok t

/-- The denial for a reading set, or a product of two, that is too big to match. -/
def overBudget (req : HxRequest) (t : Target) (pathReadings : List JString) : Option Decision :=
  let budget := readingBudget t.path.length
  if budget < pathReadings.length then
    some (.deny (js "scope_denied") (js "request path has at least " ++
      numberText pathReadings.length ++ js " readings, over the " ++ numberText budget ++
      js " this can decide about"))
  else if req.query.isEmpty then none
  else
    let targetBudget := readingBudget (req.path.length + req.query.length + 1)
    let product := pathReadings.length * (queryReadings U req.query (some targetBudget)).length
    if targetBudget < product then
      some (.deny (js "scope_denied") (js "request target has at least " ++ numberText product ++
        js " readings, over the " ++ numberText targetBudget ++ js " this can decide about"))
    else none

/-- The `render.allow` patterns, each parsed when it is reached. -/
def renderAllowed (t : Target) (pathReadings : List JString) : List JString → Option Decision
  | [] => none
  | pattern :: rest =>
      match Rule.forInclude U pattern with
      | .error e =>
          some (.deny (js "scope_denied") (js "unusable render.allow pattern: " ++ e))
      | .ok r => if r.allows t pathReadings then some .allow else renderAllowed t pathReadings rest

/-- The exclude and the include rules, all parsed before any is matched. -/
def parseRules (scope : Scope) : Except JString (List Rule × List Rule) :=
  match parseAll (Rule.forExclude U) (scopeList scope (js "scope.exclude")) with
  | .error e => .error e
  | .ok excludes => match parseAll (Rule.forInclude U) (scopeList scope (js "scope.include")) with
    | .error e => .error e
    | .ok includes => .ok (excludes, includes)

/-- The rules against the readings: an exclusion first, then the includes, then what a page
may load to be rendered. -/
def matchRules (req : HxRequest) (scope : Scope) (renderAllow : Bool) (t : Target)
    (pathReadings : List JString) (excludes includes : List Rule) : Decision :=
  match excludes.find? fun r => r.denies U t pathReadings with
  | some r => .deny (js "scope_denied") (req.url ++ js " matches scope.exclude " ++ r.source)
  | none =>
      if includes.any fun r => r.allows t pathReadings then .allow
      else
        let noMatch : Decision :=
          .deny (js "scope_denied") (req.url ++ js " matches no scope.include pattern")
        if renderAllow then
          (renderAllowed U t pathReadings (scopeList scope (js "render.allow"))).getD noMatch
        else noMatch

def checkScope (req : HxRequest) (scope : Scope) (renderAllow : Bool) : Decision :=
  match undecidable req with
  | some d => d
  | none =>
      match targetOf U req with
      | .error d => d
      | .ok t =>
          if (scopeList scope (js "scope.include")).isEmpty then
            .deny (js "scope_denied") (js "no scope.include pattern is configured")
          else match parseRules U scope with
            | .error e => .deny (js "scope_denied") (js "unusable scope pattern: " ++ e)
            | .ok (excludes, includes) =>
                let pathReadings := readings U t.path (some (readingBudget t.path.length))
                match overBudget U req t pathReadings with
                | some d => d
                | none => matchRules U req scope renderAllow t pathReadings excludes includes

/-! ## Methods and dangerous paths -/

def dangerousPatterns (scope : Scope) : List JString :=
  defaultDangerous ++ scopeList scope (js "dangerous.path")

/-- Every reading of the path against every reading of the query. -/
def targetReadings (req : HxRequest) : List JString :=
  let paths := readings U req.path none
  if req.query.isEmpty then paths
  else paths.flatMap fun path =>
    (queryReadings U req.query none).map fun query => path ++ js "?" ++ query

/-- Some reading of the pattern matches some reading of the target, case folded. -/
def dangerous (req : HxRequest) (pattern : JString) : Bool :=
  (patternReadings U pattern).any fun p =>
    (targetReadings U req).any fun target => glob (lower U p) (lower U target)

def allowedMethods (scope : Scope) : List JString :=
  (scope.get (js "method.allow")).getD defaultMethods

def beforeGate (req : HxRequest) (auth : Authorisation) (renderAllow : Bool) : Decision :=
  match unusable auth with
  | some d => d
  | none =>
      let inScope := checkScope U req auth.scope renderAllow
      if !inScope.allowed then inScope
      else if req.method ∉ allowedMethods auth.scope then
        .deny (js "method_denied")
          (req.method ++ js " is not in method.allow " ++ listText (allowedMethods auth.scope))
      else match (dangerousPatterns auth.scope).find? (dangerous U req) with
        | some pattern => .deny (js "dangerous_denied")
            (req.target ++ js " matches dangerous.path " ++ pattern)
        | none => .allow

def decideBeforeGate (req : HxRequest) (auth : Authorisation) : Decision :=
  beforeGate U req auth false

/-- Scope, and nothing after it. -/
def decideScopeOnly (req : HxRequest) (auth : Authorisation) : Decision :=
  match unusable auth with
  | some d => d
  | none => checkScope U req auth.scope false

/-- What the gate answered, where a gate that throws or answers nothing refuses. -/
inductive GateAnswer where
  | decides (d : Decision)
  | nothing
  | throws (simpleName : JString) (message : JString)

def checkGate : GateAnswer → Decision
  | .decides d => d
  | .nothing => .deny (js "budget_exhausted") (js "gate returned no decision")
  | .throws simpleName message =>
      .deny (js "budget_exhausted") (js "gate failed: " ++ simpleName ++ js ": " ++ message)

def decide (gate : GateAnswer) (req : HxRequest) (auth : Authorisation) : Decision :=
  let decided := decideBeforeGate U req auth
  if !decided.allowed then decided else checkGate gate

def decideCrawl (gate : GateAnswer) (req : HxRequest) (auth : Authorisation) : Decision :=
  let decided := beforeGate U req auth true
  if !decided.allowed then decided else checkGate gate

end Hx.Policy
