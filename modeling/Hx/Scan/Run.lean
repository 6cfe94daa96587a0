import Hx.Scan.Bracket

/-!
# One pass over the surfaces

The loop over the surfaces and their checks, the ends a row can come to, and what is left
to do once the loop is through: the closing canary, the retirement of what was examined
and not found, and the run row itself.
-/

namespace Hx.Scan

open Hx.Checks Hx.Library Hx.Python Hx.Store

section Run

variable (e : Env)

/-! ## Rows -/

def openRow (runId : Nat) (s : Surface) (c : Check) : Act Nat :=
  writeId e fun st => st.openRow runId s.id c.id c.version

def closeRow (row : Nat) (verdict : RowVerdict) (reason : Option String)
    (requestsSent : Nat) : Act Unit :=
  write e fun st => st.closeRow row verdict reason requestsSent

/-- `_skip`. -/
def skip (row : Nat) (key reason : String) : Act Unit := do
  closeRow e row .skipped reason 0
  summarise fun m => { m with skipped := m.skipped + 1, byReason := Tally.add key 1 m.byReason }

/-- `_skip_rest`, and the counter it answers. -/
def skipRest (runId : Nat) (s : Surface) (reason : String) : Act Unit := do
  Prog.forEach (fun c => do
    let row ← openRow e runId s c
    summarise fun m => { m with checksRun := m.checksRun + 1 }
    closeRow e row .skipped reason 0
    summarise fun m => { m with byReason := Tally.add reason 1 m.byReason }) e.enabled
  summarise fun m => { m with skipped := m.skipped + e.enabled.length }

/-! ## One row -/

/-- `_citable_exemplar`. -/
def citableExemplar (s : Surface) (exchanges : List ExchangeRow) : Option String :=
  s.exemplar.filter fun id => id != "" && exchanges.any fun x => x.id = id

/-- `_exemplar_request`. -/
def readExemplar (s : Surface) (exchanges : List ExchangeRow) : Act (Option Bytes) :=
  match s.exemplar with
  | none => pure none
  | some id =>
      match (exchanges.find? fun x => x.id = id).bind ExchangeRow.reqBlob with
      | none => pure none
      | some digest =>
          if id = "" ∨ digest = "" then pure none
          else do
            let read ← ask fun t => e.blob t digest
            returns read

/-- The exemplar request, read once per surface. -/
def exemplarRequest (s : Surface) (exchanges : List ExchangeRow) : Act (Option Bytes) := do
  match (← .gets Pass.exemplar) with
  | some held => pure held
  | none => do
      let read ← readExemplar e s exchanges
      Prog.modify fun p => { p with exemplar := some read }
      pure read

def probePath : Option Bytes → Act (Option String)
  | none => pure none
  | some request => returns (e.requestPath request)

/-- The points of the kinds a check wants, derived once per surface. -/
def declaredPoints (request : Option Bytes) (s : Surface) (c : Check) : Act (List Insertion) := do
  if c.insertionKinds = [] then pure []
  else do
    match (← .gets Pass.insertions) with
    | some points => pure (points.filter fun i => c.insertionKinds.contains i.kind)
    | none => do
        let points ← returns (e.derive (request.getD []) s.pathTemplate)
        Prog.modify fun p => { p with insertions := some points }
        pure (points.filter fun i => c.insertionKinds.contains i.kind)

def credentialHeaders : List String := ["authorization", "cookie", "proxy-authorization"]

/-- `probe.unprobeable`. -/
def unprobeable (i : Insertion) : Option String :=
  if i.kind = .cookie then
    some (s!"cookie {e.texts.repr i.name}: a cookie is probed by sending a Cookie header, which " ++
      "the send path refuses")
  else if i.kind = .header ∧ credentialHeaders.contains (String.ofList (lower i.name.toList)) then
    some (s!"header {e.texts.repr i.name}: the send path refuses a credential header it did " ++
      "not inject")
  else none

/-- `sorted` of a set of words, as it is shown. -/
def shownList (words : List String) : String :=
  "[" ++ String.intercalate ", " (words.map e.texts.repr) ++ "]"

def sortedKinds : List InsertionKind :=
  [.bodyForm, .bodyJson, .cookie, .header, .pathSegment, .query]

def shownKinds (c : Check) : String :=
  shownList e ((sortedKinds.filter fun k => c.insertionKinds.contains k).map insertionKind)

def notAGetSurface (s : Surface) : String :=
  s!"this surface was captured as a {s.method} request and this build can send nothing but a " ++
  "GET (body and mutating probes are outside this build by design), so a probe here would be a " ++
  "request to a different surface -- a method is part of a surface's identity -- and the check " ++
  "was not run, not run clean"

def noProbeablePoint (c : Check) (declared : List Insertion) : String :=
  s!"the {declared.length} insertion point(s) of kind {shownKinds e c} on this surface are all " ++
  "ones the send path refuses to carry a probe to -- a cookie, or one of the credential headers " ++
  s!"{shownList e credentialHeaders} the extension did not inject -- so there was nowhere for " ++
  "this check to put a payload it could send; it was not run, not run clean" ++
  detail (declared.filterMap (unprobeable e))

/-- The sender of a row is what the check leaves it as. -/
def drive (row : Nat) (s : Surface) (c : Check) (usable : List Insertion) (path : String) :
    Act Ended := do
  let bracket ← .gets Pass.bracket
  let called ← ask fun t => e.probes t c s usable path (bracket.map fun b => b.resolved.id)
  Prog.modify fun p => p.drove row called.sent called.refused
  pure called.ended

/-- The probe pass of one row: a skip, or what the check ended in. -/
def probe (row : Nat) (s : Surface) (exchanges : List ExchangeRow) (c : Check) :
    Act (Option Ended) := do
  if !e.bridged then do
    skip e row "no_bridge" ("no bridge: this scan opened no Burp session, so this active check " ++
      "had no route to the target and sent nothing")
    pure none
  else if s.method ≠ "GET" then do
    skip e row "not_a_get_surface" (notAGetSurface s)
    pure none
  else if (citableExemplar s exchanges).isNone then do
    skip e row "no_exemplar" ("this surface's exemplar exchange is not on file, and it is the " ++
      "evidence an active check cites for anything it finds here; a finding would have had no " ++
      "exchange to chain to")
    pure none
  else do
    let request ← exemplarRequest e s exchanges
    match (← probePath e request) with
    | none => do
        skip e row "no_probe_path" ("this surface's exemplar request does not yield a concrete " ++
          "path to probe, and a surface's path_template is its identity rather than an " ++
          "address; the check was not run, not run clean")
        pure none
    | some path => do
        let declared ← declaredPoints e request s c
        let usable := declared.filter fun i => (unprobeable e i).isNone
        if c.insertionKinds ≠ [] ∧ usable = [] ∧ declared ≠ [] then do
          skip e row "no_probeable_insertion_point" (noProbeablePoint e c declared)
          pure none
        else if c.insertionKinds ≠ [] ∧ usable = [] then do
          skip e row "no_insertion_point" (s!"no insertion point of kind {shownKinds e c} on " ++
            "this surface, so there was nowhere for this check to put a payload; it was not " ++
            "run, not run clean")
          pure none
        else do
          let ended ← drive e row s c usable path
          pure (some ended)

def call (row : Nat) (s : Surface) (exchanges : List ExchangeRow) (c : Check) :
    Act (Option Ended) :=
  match c.hook with
  | .probes => probe e row s exchanges c
  | .onSurface => do
      let ended ← ask fun t => e.onSurface t c s exchanges
      pure (some ended)
  | .neither => .raise (.exception "AttributeError" (e.attributeError c))

def keyOf (s : Surface) (c : Check) (candidate : Candidate) : String :=
  dedupeKey c.id candidate.issueTypeId.val
    ⟨s.origin.scheme, s.origin.host, some s.origin.port, s.method, s.pathTemplate⟩
    candidate.insertion candidate.scopeLevel

/-- The answer of a run that drew a candidate. -/
def drawn (runId : Nat) (s : Surface) (c : Check) (candidate : Candidate) : Observation where
  finding := keyOf s c candidate
  run := runId
  observed := true
  exchange := candidate.exchangeIds.head?
  severityAt := some candidate.severity
  confidenceAt := some candidate.confidence

/-- What `_write_finding` writes. -/
def file (runId : Nat) (s : Surface) (c : Check) (candidate : Candidate)
    (st : Engagement) : Engagement :=
  let key := keyOf s c candidate
  let found := st.upsertFinding key candidate runId s.id s.origin.host c.id
  (found.recordObservation (drawn runId s c candidate)).recordEvidence key candidate.exchangeIds

/-- `_write_finding`. -/
def writeFinding (runId : Nat) (s : Surface) (c : Check) (candidate : Candidate) :
    Act String := do
  write e (file runId s c candidate)
  pure (keyOf s c candidate)

/-- A verdict that is one: what it offers is kept, what it found is written. -/
def accept (runId row : Nat) (s : Surface) (c : Check) (v : Returned) : Act Unit := do
  Prog.modify fun p => p.returned row s c v p.tick
  if v.state = .finding then
    Prog.forEach (fun candidate => do
      let key ← writeFinding e runId s c candidate
      Prog.modify fun p => p.saw key) v.candidates
  else pure ()

/-- The `try` of one row: what is left to close it with, unless it is closed already. -/
def handle (runId row : Nat) (s : Surface) (exchanges : List ExchangeRow) (c : Check) :
    Act (Option Returned) := do
  match (← call e row s exchanges c) with
  | none => pure none
  | some (.raised exc) => .raise exc
  | some (.other text) => .raise (.exception "TypeError" text)
  | some (.verdict v) => do
      accept e runId row s c v
      pure (some v)

/-- `_spent`, asked once where a row that was not skipped closes. -/
def spend : Act Nat := do
  Prog.modify Pass.spent
  .gets Pass.sent

/-- One row: opened, handled, and closed by what became of it. -/
def rowTurn (runId : Nat) (s : Surface) (exchanges : List ExchangeRow) (c : Check) :
    Act Unit := do
  let row ← openRow e runId s c
  Prog.modify fun p => { p with
    summary := { p.summary with checksRun := p.summary.checksRun + 1 }, sender := none }
  match (← Prog.attempt (handle e runId row s exchanges c)) with
  | .ok none => pure ()
  | .ok (some v) => do
      let sent ← spend
      closeRow e row v.state.row v.reason sent
  | .error (.refused text) => do
      let sent ← spend
      closeRow e row .inconclusive (s!"probe refused: {text}") sent
  | .error (.interrupt type text) => .raise (.interrupt type text)
  | .error exc => do
      let sent ← spend
      closeRow e row .error (s!"{exc.type}: {exc.text}") sent

/-- One turn of the loop over the checks. -/
def turn (runId : Nat) (s : Surface) (exchanges : List ExchangeRow) (c : Check) : Act Unit := do
  canaryIfDue e
  rowTurn e runId s exchanges c

/-! ## The pass -/

/-- One turn of the loop over the surfaces. -/
def surfaceTurn (runId : Nat) (s : Surface) : Act Unit :=
  if e.passes s then do
    let late ← ask e.late
    if late then skipRest e runId s "budget"
    else do
      summarise fun m => { m with surfaces := m.surfaces + 1 }
      let at_ ← ask e.now
      write e fun st => st.heartbeat runId at_
      let exchanges ← ask fun t => e.exchanges t s.id
      let exchanges ← returns exchanges
      Prog.modify fun p => { p with exemplar := none, insertions := none }
      Prog.forEach (turn e runId s exchanges) e.enabled
  else pure ()

/-- `_retirable`. -/
def retirable (o : Offer) (state : Option IdentityState) (proven : Option Origin) :
    List IssueType :=
  if o.hook ≠ .probes then o.verdict.considered
  else if state ≠ some .proven then []
  else if some o.origin = proven then o.verdict.considered
  else []

/-- The set `_mark_unobserved` matches a finding on. -/
def considered (offered : List Offer) (state : Option IdentityState) (proven : Option Origin) :
    List (String × String × String) :=
  offered.flatMap fun o => (retirable o state proven).map fun t => (o.surface, o.check, t.val)

/-- The finding is of an examined kind and was not seen. -/
def retires (seen : List String) (considered : List (String × String × String))
    (f : Finding) : Bool :=
  !seen.contains f.key && considered.any fun k =>
    f.surface = some k.1 ∧ f.check = some k.2.1 ∧ f.issueTypeId = some k.2.2

/-- The answer of a run that looked and did not find. -/
def gone (runId : Nat) (f : Finding) : Observation where
  finding := f.key
  run := runId
  observed := false
  exchange := none
  severityAt := none
  confidenceAt := none

/-- What `_mark_unobserved` writes. -/
def retire (runId : Nat) (seen : List String) (considered : List (String × String × String))
    (st : Engagement) : Engagement :=
  (st.findings.filter (retires seen considered)).foldl
    (fun st f => st.recordObservation (gone runId f)) st

/-- `_mark_unobserved`. -/
def markUnobserved (runId : Nat) : Act Unit := do
  let p ← .gets id
  let keys := considered p.offered p.summary.identityState (p.bracket.map Bracket.target)
  if keys = [] then pure ()
  else do
    write e (retire runId p.seen keys)
    Prog.modify fun q => { q with
      log := (p.store.findings.filter (retires p.seen keys)).map .retired ++ q.log }

/-- `_record_identity`, with the state on its way to the caller. -/
def settleIdentity (runId : Nat) (b : Bracket) (state : IdentityState) : Act Unit := do
  summarise fun m => { m with identityState := some state }
  write e fun st => st.recordIdentity runId b.resolved.id b.resolved.generation state
  Prog.modify fun p => { p with log := .settled state p.tick :: p.log }

/-- A bracket is in hand before its opening canary is sent. -/
def startBracket : Option Bracket → Act Unit
  | none => pure ()
  | some b => do
      setBracket b
      start e b

/-- The closing canary, and what the run row says of the identity. -/
def settleBracket (runId : Nat) : Act Unit := do
  match (← .gets Pass.bracket) with
  | none => pure ()
  | some b => do
      finish e b
      match (← .gets Pass.bracket) with
      | none => pure ()
      | some b => settleIdentity e runId b b.window.stateForRun

/-- The `try` of `run`. -/
def body (runId : Nat) : Act Unit := do
  let surfaces ← ask e.surfaces
  let surfaces ← returns surfaces
  let bracket ← identityBracket e surfaces
  startBracket e bracket
  Prog.forEach (surfaceTurn e runId) surfaces
  settleBracket e runId
  markUnobserved e runId

/-- `_tallies`. -/
def tallies (m : Summary) : List String :=
  (if m.byReason = [] then [] else ["skipped " ++ m.byReason.line]) ++
    if m.refused = [] then [] else ["probes refused " ++ m.refused.line]

/-- `_halt_reason`. -/
def haltReason (exc : Exc) (m : Summary) : String :=
  match exc with
  | .identityDead _ stopReason =>
      "scan.run raised: IdentityDead: " ++ String.intercalate "; " (stopReason :: tallies m)
  | exc => s!"scan.run raised: {exc.type}: {exc.text}"

def stopReason (m : Summary) : Option String :=
  if tallies m = [] then none else some ("truncated: " ++ String.intercalate "; " (tallies m))

/-- The state a halted run is recorded with. -/
def haltState : Exc → IdentityState
  | .identityDead _ _ => .dead
  | _ => .assumed

def close (runId : Nat) (status : RunStatus) (reason : Option String) : Act Unit := do
  let at_ ← ask e.now
  write e fun st => st.closeRun runId at_ status reason

/-- The `except BaseException` of `run`. -/
def halt (runId : Nat) (exc : Exc) : Act Unit := do
  match (← .gets Pass.bracket) with
  | none => pure ()
  | some b => settleIdentity e runId b (haltState exc)
  let summary ← .gets Pass.summary
  close e runId .error (haltReason exc summary)
  .raise exc

/-- `run_mod.current_run`, for a scan. -/
def currentRun : Act Nat := do
  let at_ ← ask e.now
  match (← .gets fun p => p.store.liveRun .scan) with
  | none => writeId e fun st => st.openRun .scan at_
  | some r =>
      if at_ - Engagement.lastSeen r ≤ idleCloseUs then pure r.id
      else do
        write e fun st => st.closeRun r.id (Engagement.lastSeen r) .completed "idle"
        writeId e fun st => st.openRun .scan at_

/-- `scan.run` once the run row is there. -/
def runUnder (runId : Nat) : Act Unit := do
  match (← Prog.attempt (body e runId)) with
  | .error exc => halt e runId exc
  | .ok _ => do
      let summary ← .gets Pass.summary
      close e runId .completed (stopReason summary)

/-- `scan.run`. -/
def run : Act Unit :=
  if e.enabled = [] then pure ()
  else do
    let runId ← currentRun e
    runUnder e runId

end Run

end Hx.Scan
