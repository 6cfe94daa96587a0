import Hx.Checks.Base

/-!
# The store a scan writes to

Runs, check rows, findings and what each run answered about them, for one engagement.
`UNIQUE (engagement_id, dedupe_key)` makes the key of a finding stand for its id, and the
primary key of an observation is the finding and the run. `new_id` never answers twice.
-/

namespace Hx.Store

open Hx.Checks

/-! ## Rows -/

inductive RunKind where
  | browse
  | crawl
  | manual
  | scan
  deriving DecidableEq

inductive RunStatus where
  | running
  | completed
  | aborted
  | killed
  | error
  deriving DecidableEq

/-- `IDENTITY_STATES`. -/
inductive IdentityState where
  | proven
  | assumed
  | dead
  deriving DecidableEq

structure Run where
  id : Nat
  kind : RunKind
  startedUs : Int
  heartbeatUs : Option Int
  endedUs : Option Int := none
  status : RunStatus := .running
  stopReason : Option String := none
  identity : Option String := none
  identityGeneration : Option Nat := none
  identityState : Option IdentityState := none
  deriving DecidableEq

/-- `check_run.verdict`: what a check says, and the runner's own words. -/
inductive RowVerdict where
  | pending
  | clean
  | finding
  | inconclusive
  | skipped
  | error
  deriving DecidableEq

structure CheckRun where
  id : Nat
  run : Nat
  surface : String
  check : String
  version : String
  verdict : RowVerdict := .pending
  reason : Option String := none
  requestsSent : Nat := 0
  deriving DecidableEq

/-- A finding a check or an agent filed; an agent's names no check. -/
structure Finding where
  key : String
  issueTypeId : Option String
  severity : Severity
  confidence : Confidence
  cwe : Option String
  payload : Option String
  insertion : Option Insertion
  scopeLevel : ScopeLevel
  surface : Option String
  host : Option String
  check : Option String
  firstSeenRun : Nat
  lastSeenRun : Nat
  deriving DecidableEq

structure Observation where
  finding : String
  run : Nat
  observed : Bool
  exchange : Option String
  severityAt : Option Severity
  confidenceAt : Option Confidence
  deriving DecidableEq

structure Evidence where
  finding : String
  exchange : String
  deriving DecidableEq

/-- What is on file for one engagement. -/
structure Engagement where
  runs : List Run := []
  checkRuns : List CheckRun := []
  findings : List Finding := []
  observations : List Observation := []
  evidence : List Evidence := []
  nextId : Nat := 0

/-- The ids on file have been handed out. -/
def Engagement.Issued (st : Engagement) : Prop :=
  (∀ r ∈ st.runs, r.id < st.nextId) ∧ ∀ r ∈ st.checkRuns, r.id < st.nextId

/-! ## Runs -/

/-- `IDLE_CLOSE_US`. -/
def idleCloseUs : Int := 15 * 60 * 1000000

namespace Engagement

def openRun (st : Engagement) (kind : RunKind) (at_ : Int) : Nat × Engagement :=
  (st.nextId, { st with
    runs := st.runs ++ [{ id := st.nextId, kind, startedUs := at_, heartbeatUs := some at_ }]
    nextId := st.nextId + 1 })

/-- Every run update of the runner names one run. -/
def onRun (st : Engagement) (id : Nat) (change : Run → Run) : Engagement :=
  { st with runs := st.runs.map fun r => if r.id = id then change r else r }

def heartbeat (st : Engagement) (id : Nat) (at_ : Int) : Engagement :=
  st.onRun id fun r => if r.status = .running then { r with heartbeatUs := some at_ } else r

def closeRun (st : Engagement) (id : Nat) (at_ : Int) (status : RunStatus)
    (stopReason : Option String) : Engagement :=
  st.onRun id fun r =>
    if r.status = .running then { r with status, endedUs := some at_, stopReason } else r

def recordIdentity (st : Engagement) (id : Nat) (identity : String) (generation : Nat)
    (state : IdentityState) : Engagement :=
  st.onRun id fun r => { r with
    identity := some identity, identityGeneration := some generation, identityState := some state }

/-- `ORDER BY started_us DESC LIMIT 1`. -/
def latest : List Run → Option Run
  | [] => none
  | r :: rest =>
      match latest rest with
      | none => some r
      | some best => if best.startedUs ≤ r.startedUs then some r else some best

/-- The `SELECT` of `current_run`. -/
def liveRun (st : Engagement) (kind : RunKind) : Option Run :=
  latest (st.runs.filter fun r => r.kind = kind ∧ r.status = .running)

/-- `COALESCE(heartbeat_us, started_us)`. -/
def lastSeen (r : Run) : Int := r.heartbeatUs.getD r.startedUs

/-- The id `current_run` answers with, for what it reads at some time. -/
def handedBack (st : Engagement) (kind : RunKind) (at_ : Int) : Nat :=
  match st.liveRun kind with
  | none => st.nextId
  | some r => if at_ - lastSeen r ≤ idleCloseUs then r.id else st.nextId

/-! ## Check rows -/

def openRow (st : Engagement) (run : Nat) (surface check version : String) : Nat × Engagement :=
  (st.nextId, { st with
    checkRuns := st.checkRuns ++ [{ id := st.nextId, run, surface, check, version }]
    nextId := st.nextId + 1 })

def closeRow (st : Engagement) (id : Nat) (verdict : RowVerdict) (reason : Option String)
    (requestsSent : Nat) : Engagement :=
  { st with checkRuns := st.checkRuns.map fun r =>
      if r.id = id then { r with verdict, reason, requestsSent } else r }

end Engagement

/-! ## Findings -/

/-- The parts of a key. -/
inductive KeyPart where
  | type_
  | issueTypeId
  | scheme
  | host
  | port
  | method
  | pathTemplate
  | insertionKind
  | insertionName
  deriving DecidableEq

/-- `_SCOPE_BLANKS`. -/
def scopeBlanks : ScopeLevel → List KeyPart
  | .engagement => [.scheme, .host, .port, .method, .pathTemplate]
  | .host => [.method, .pathTemplate]
  | .surface => []
  | .insertion => []

def insertionKind : InsertionKind → String
  | .query => "query"
  | .pathSegment => "path_segment"
  | .header => "header"
  | .cookie => "cookie"
  | .bodyForm => "body_form"
  | .bodyJson => "body_json"

/-- One part of the key: `-` for what does not apply and for what is not there. -/
def keyPart (blanks : List KeyPart) (name : KeyPart) (value : Option String) : String :=
  if blanks.contains name ∨ value = none ∨ value = some "" then "-" else value.getD "-"

structure Location where
  scheme : String
  host : String
  port : Option Int
  method : String
  pathTemplate : String
  deriving DecidableEq

def dedupeKey (type_ issueTypeId : String) (at_ : Location) (insertion : Option Insertion)
    (scopeLevel : ScopeLevel) : String :=
  let part := keyPart (scopeBlanks scopeLevel)
  String.intercalate "|" [
    part .type_ type_, part .issueTypeId issueTypeId, part .scheme at_.scheme,
    part .host at_.host, part .port (at_.port.map toString), part .method at_.method,
    part .pathTemplate at_.pathTemplate,
    part .insertionKind (insertion.map fun i => insertionKind i.kind),
    part .insertionName (insertion.map (·.name))]

namespace Engagement

/-- `ON CONFLICT(engagement_id, dedupe_key) DO UPDATE`. -/
def refresh (f : Finding) (candidate : Candidate) (run : Nat) (surface host check : String) :
    Finding :=
  { f with
    severity := candidate.severity, confidence := candidate.confidence, cwe := candidate.cwe
    payload := candidate.payload, surface := some surface, host := some host
    check := some check, lastSeenRun := run }

def newFinding (key : String) (candidate : Candidate) (run : Nat)
    (surface host check : String) : Finding where
  key
  issueTypeId := some candidate.issueTypeId.val
  severity := candidate.severity
  confidence := candidate.confidence
  cwe := candidate.cwe
  payload := candidate.payload
  insertion := candidate.insertion
  scopeLevel := candidate.scopeLevel
  surface := some surface
  host := some host
  check := some check
  firstSeenRun := run
  lastSeenRun := run

def upsertFinding (st : Engagement) (key : String) (candidate : Candidate) (run : Nat)
    (surface host check : String) : Engagement :=
  { st with findings :=
      if st.findings.any fun f => f.key = key then
        st.findings.map fun f =>
          if f.key = key then refresh f candidate run surface host check else f
      else st.findings ++ [newFinding key candidate run surface host check] }

/-- A second answer of a run about a finding replaces the first. -/
def recordObservation (st : Engagement) (o : Observation) : Engagement :=
  { st with observations :=
      st.observations.filter (fun p => ¬ (p.finding = o.finding ∧ p.run = o.run)) ++ [o] }

/-- Each exchange once. -/
def recordEvidence (st : Engagement) (key : String) (exchangeIds : List String) : Engagement :=
  { st with evidence := exchangeIds.foldl (fun chain x =>
      if chain.any fun v => v.finding = key ∧ v.exchange = x then chain
      else chain ++ [⟨key, x⟩]) st.evidence }

/-- What a run answered about a finding. -/
def answer (st : Engagement) (finding : String) (run : Nat) : Option Bool :=
  (st.observations.find? fun o => o.finding = finding ∧ o.run = run).map (·.observed)

end Engagement

/-! ## The run a call is handed -/

theorem mem_of_latest {runs : List Run} {r : Run} (h : Engagement.latest runs = some r) :
    r ∈ runs := by
  induction runs with
  | nil => contradiction
  | cons first rest ih =>
      rw [Engagement.latest] at h
      cases best : Engagement.latest rest with
      | none =>
          rw [best] at h
          rw [← Option.some.inj h]
          exact List.mem_cons_self
      | some r' =>
          rw [best] at h ih
          simp only at h
          split at h
          · rw [← Option.some.inj h]
            exact List.mem_cons_self
          · exact List.mem_cons_of_mem _ (ih h)

theorem mem_of_liveRun {st : Engagement} {kind : RunKind} {r : Run}
    (h : st.liveRun kind = some r) : r ∈ st.runs ∧ r.kind = kind ∧ r.status = .running := by
  have mem := List.mem_filter.1 (mem_of_latest h)
  exact ⟨mem.1, of_decide_eq_true mem.2⟩

end Hx.Store
