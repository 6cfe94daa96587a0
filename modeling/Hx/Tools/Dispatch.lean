import Hx.Library.Transition
import Mathlib.Logic.Function.Basic

/-!
# Tool calls, runs and the rows they write

An engagement store is shared by any number of tool contexts and by processes that
open and close runs on their own. A context resolves the run of a call from its
binding or, unbound, from one snapshot of the open runs per call; the gate in front
of the traffic looks at the session only, and the exchange row is written after the
answer came back.

Each statement that another process can fall in front of is a step of its own:
resolving the run, sending, the answer, and the transaction that records it.
-/

namespace Hx.Tools

open Hx.Library

inductive Kind where
  | browse
  | crawl
  | manual
  | scan
  deriving DecidableEq

/-- The kinds whose `run.start` launches a session. -/
def egressKinds : List Kind := [.manual, .scan, .crawl]

inductive Status where
  | running
  | completed
  | aborted
  | killed
  | error
  deriving DecidableEq

/-- A row of `run`. Rows are listed in `started_us` order. -/
structure Run where
  id : Nat
  kind : Kind
  status : Status
  requestsIssued : Nat
  deriving DecidableEq

/-- A row of `exchange`: the request it answers, none for a proxy observation, and
the run it names. -/
structure Exchange where
  request : Option Nat
  runId : Option Nat
  deriving DecidableEq

/-- What `issue` reads off a `result` frame before it writes a row. -/
structure Reply where
  status : Option Nat
  outcome : String

/-! ## The store -/

/-- `schema.sql` declares `exchange.run_id` without `NOT NULL`. -/
def exchangeRunIdNotNull : Bool := false

def exchangeOutcomes : List String :=
  ["ok", "timeout", "conn_refused", "dns_error", "tls_error", "scope_denied", "rate_limited",
    "bridge_lost", "truncated", "status_unreadable"]

def noStatusOutcomes : List String :=
  ["timeout", "conn_refused", "dns_error", "tls_error", "bridge_lost"]

def statusUnreadable : Nat := 599

/-- The guards of `record_exchange`, in their order: whether they let a row through. -/
def recordable (r : Reply) : Bool :=
  decide (r.outcome ∈ exchangeOutcomes) &&
  !(r.status.isNone && (r.outcome == "ok" || r.outcome == "truncated")) &&
  !(r.outcome == "status_unreadable" && r.status != some statusUnreadable) &&
  !(decide (r.outcome ∈ noStatusOutcomes) && r.status.isSome)

/-- `hx.run.open_runs`. -/
def openRuns (runs : List Run) : List (Nat × Kind) :=
  (runs.filter (·.status = .running)).map fun r => (r.id, r.kind)

/-- `hx.run.close_run`: nothing happens to a run that is not `running`. -/
def closeRun (id : Nat) (status : Status) (runs : List Run) : List Run :=
  runs.map fun r => if r.id = id ∧ r.status = .running then { r with status := status } else r

/-- `UPDATE run SET requests_issued = requests_issued + 1 WHERE id=?`. -/
def countRequest (id : Option Nat) (runs : List Run) : List Run :=
  runs.map fun r =>
    if some r.id = id then { r with requestsIssued := r.requestsIssued + 1 } else r

def isRunning (runs : List Run) (id : Nat) : Bool :=
  runs.any fun r => r.id == id && r.status == .running

/-- What the constraints of `exchange` say of a `run_id`: the foreign key, and
`NOT NULL` where the column has it. -/
def acceptsRunId (notNull : Bool) (runs : List Run) : Option Nat → Bool
  | none => !notNull
  | some id => runs.any (·.id == id)

/-- The statuses `run.finish` takes; `killed` is the operator's word. -/
def agentStatuses : List Status := [.completed, .aborted, .error]

/-! ## Contexts -/

/-- Where a context stands inside a call. `left` is the number of requests the call
still has to send after the one it is busy with. -/
inductive Phase where
  | idle
  | starting (kind : Kind)
  | finishing (closed : Nat)
  | between (left : Nat)
  | holding (held : Option Nat) (left : Nat)
  | inFlight (request : Nat) (held : Option Nat) (left : Nat)
  | answered (request : Nat) (held : Option Nat) (reply : Reply) (left : Nat)

/-- The request a call is waiting for or has yet to record, and the run it holds. -/
def Phase.carries : Phase → Option (Nat × Option Nat)
  | .inFlight request held _ => some (request, held)
  | .answered request held _ _ => some (request, held)
  | _ => none

def Phase.request (p : Phase) : Option Nat := p.carries.map (·.1)

/-- A `ToolContext`: `session` names the run that launched the session. -/
structure ToolContext where
  stack : Bool
  session : Option Nat
  boundRunId : Option Nat
  openRunsCache : Option (List (Nat × Kind))
  phase : Phase

namespace ToolContext

/-- `dispatch` forgets the snapshot of the call before. -/
def dispatch (c : ToolContext) : ToolContext := { c with openRunsCache := none }

def openRuns (c : ToolContext) (runs : List Run) : List (Nat × Kind) :=
  c.openRunsCache.getD (Tools.openRuns runs)

/-- The bound run, or the only open one. Ambiguity is never guessed. -/
def runId (c : ToolContext) (runs : List Run) : Option Nat :=
  match c.boundRunId with
  | some id => some id
  | none =>
      match c.openRuns runs with
      | [(id, _)] => some id
      | _ => none

/-- Reading `runId` unbound takes the call's snapshot. -/
def resolve (c : ToolContext) (runs : List Run) : ToolContext :=
  match c.boundRunId with
  | some _ => c
  | none => { c with openRunsCache := some (c.openRuns runs) }

/-- Which run `run.finish` closes. -/
def finishTarget (c : ToolContext) (runs : List Run) : Option Kind → Option Nat
  | some kind => ((c.openRuns runs).find? (·.2 = kind)).map (·.1)
  | none => c.runId runs

/-- `open_for`: whether this run gets the context's one session. -/
def launches (c : ToolContext) (kind : Kind) : Bool :=
  decide (kind ∈ egressKinds) && c.stack && c.session.isNone

/-- The end of `run.start`: bind the new run, hold the session it launched. -/
def started (c : ToolContext) (id : Nat) (kind : Kind) (live : Bool) : ToolContext :=
  { c with
    boundRunId := some id
    session := if c.launches kind && live then some id else c.session
    phase := .idle }

/-- The end of `run.finish`: the session goes with the run that launched it, and only
a run this context names is unbound. -/
def finished (c : ToolContext) (runs : List Run) (closed : Nat) : ToolContext :=
  { c with
    session := if c.session = some closed then none else c.session
    boundRunId := if c.runId runs = some closed then none else c.boundRunId
    phase := .idle }

end ToolContext

/-! ## Interleaved calls -/

/-- A request that was put on the wire: the run its call held, and whether that was
`running` at that moment. -/
structure Issue where
  request : Nat
  held : Option Nat
  running : Bool
  deriving DecidableEq

/-- The store, the contexts, and what went over the bridge. -/
structure Engagement where
  runs : List Run
  exchanges : List Exchange
  context : Nat → ToolContext
  nextRun : Nat
  nextRequest : Nat
  wire : List Issue
  replies : List Nat

namespace Engagement

def setContext (e : Engagement) (c : Nat) (ctx : ToolContext) : Engagement :=
  { e with context := Function.update e.context c ctx }

def setPhase (e : Engagement) (c : Nat) (p : Phase) : Engagement :=
  e.setContext c { e.context c with phase := p }

/-- `hx.run.open_run`. -/
def openRun (e : Engagement) (kind : Kind) : Engagement :=
  { e with runs := e.runs ++ [⟨e.nextRun, kind, .running, 0⟩], nextRun := e.nextRun + 1 }

/-- The transaction of `issue`, and of the proxy writer. -/
def record (e : Engagement) (row : Exchange) : Engagement :=
  { e with exchanges := e.exchanges ++ [row], runs := countRequest row.runId e.runs }

/-- `BridgeServer.send` with the run its caller holds. -/
def send (e : Engagement) (held : Option Nat) : Engagement :=
  { e with
    wire := e.wire ++ [⟨e.nextRequest, held, held.any (isRunning e.runs)⟩]
    nextRequest := e.nextRequest + 1 }

end Engagement

/-- What can happen next. The first three are other processes. `finishAsked` carries
the kind it was given, `sendAsked` the number of requests the call will send, `recorded`
whether anything between the answer and the commit failed. `ended` is a call that
returns, or raises with no request out. -/
inductive Event where
  | openElsewhere (kind : Kind)
  | closeElsewhere (id : Nat) (status : Status)
  | captureElsewhere (id : Nat)
  | startAsked (c : Nat) (kind : Kind)
  | startOpened (c : Nat) (live : Bool)
  | finishAsked (c : Nat) (kind : Option Kind)
  | finishClosed (c : Nat) (status : Status)
  | sendAsked (c : Nat) (requests : Nat)
  | resolved (c : Nat)
  | issued (c : Nat)
  | refused (c : Nat)
  | answered (c : Nat) (reply : Reply)
  | recorded (c : Nat) (fault : Bool)
  | ended (c : Nat)

open Hx.Tools.Engagement in
/-- One step. A dispatch that is refused before its handler does anything is no step. -/
inductive Step (notNull : Bool) : Engagement → Event → Engagement → Prop where
  | openElsewhere {e : Engagement} (kind : Kind) :
      Step notNull e (.openElsewhere kind) (e.openRun kind)
  | closeElsewhere {e : Engagement} (id : Nat) {status : Status} (closes : status ≠ .running) :
      Step notNull e (.closeElsewhere id status) { e with runs := closeRun id status e.runs }
  | captureElsewhere {e : Engagement} {id : Nat} (live : isRunning e.runs id = true) :
      Step notNull e (.captureElsewhere id) (e.record ⟨none, some id⟩)
  | startAsked {e : Engagement} {c : Nat} {kind : Kind} (idle : (e.context c).phase = .idle)
      (free : kind ∉ (openRuns e.runs).map (·.2)) :
      Step notNull e (.startAsked c kind)
        (e.setContext c { (e.context c).dispatch with phase := .starting kind })
  | startOpened {e : Engagement} {c : Nat} {kind : Kind} (live : Bool)
      (at_ : (e.context c).phase = .starting kind) :
      Step notNull e (.startOpened c live)
        ((e.openRun kind).setContext c ((e.context c).started e.nextRun kind live))
  | finishAsked {e : Engagement} {c id : Nat} {kind : Option Kind}
      (idle : (e.context c).phase = .idle)
      (found : (e.context c).dispatch.finishTarget e.runs kind = some id) :
      Step notNull e (.finishAsked c kind)
        (e.setContext c { (e.context c).dispatch.resolve e.runs with phase := .finishing id })
  | finishClosed {e : Engagement} {c id : Nat} {status : Status}
      (at_ : (e.context c).phase = .finishing id) (said : status ∈ agentStatuses) :
      Step notNull e (.finishClosed c status)
        ({ e with runs := closeRun id status e.runs }.setContext c
          ((e.context c).finished (closeRun id status e.runs) id))
  | sendAsked {e : Engagement} {c : Nat} (requests : Nat) (idle : (e.context c).phase = .idle)
      (session : (e.context c).session.isSome = true) :
      Step notNull e (.sendAsked c requests)
        (e.setContext c { (e.context c).dispatch with phase := .between requests })
  | resolved {e : Engagement} {c left : Nat}
      (at_ : (e.context c).phase = .between (left + 1)) :
      Step notNull e (.resolved c)
        (e.setContext c { (e.context c).resolve e.runs with
          phase := .holding ((e.context c).runId e.runs) left })
  | issued {e : Engagement} {c left : Nat} {held : Option Nat}
      (at_ : (e.context c).phase = .holding held left) :
      Step notNull e (.issued c)
        ((e.send held).setPhase c (.inFlight e.nextRequest held left))
  | refused {e : Engagement} {c request left : Nat} {held : Option Nat}
      (at_ : (e.context c).phase = .inFlight request held left) :
      Step notNull e (.refused c) (e.setPhase c (.between left))
  | answered {e : Engagement} {c request left : Nat} {held : Option Nat} (reply : Reply)
      (at_ : (e.context c).phase = .inFlight request held left) :
      Step notNull e (.answered c reply)
        ({ e with replies := e.replies ++ [request] }.setPhase c
          (.answered request held reply left))
  | recorded {e : Engagement} {c request left : Nat} {held : Option Nat} {reply : Reply}
      (at_ : (e.context c).phase = .answered request held reply left)
      (accepted : recordable reply = true ∧ acceptsRunId notNull e.runs held = true) :
      Step notNull e (.recorded c false)
        ((e.record ⟨some request, held⟩).setPhase c (.between left))
  | lost {e : Engagement} {c request left : Nat} {held : Option Nat} {reply : Reply}
      (fault : Bool) (at_ : (e.context c).phase = .answered request held reply left)
      (raises : fault = true ∨
        ¬ (recordable reply = true ∧ acceptsRunId notNull e.runs held = true)) :
      Step notNull e (.recorded c fault) (e.setPhase c .idle)
  | ended {e : Engagement} {c : Nat} (quiet : (e.context c).phase.request = none) :
      Step notNull e (.ended c) (e.setPhase c .idle)

/-- What run ids and counters keep: ids are distinct and below the next one, every row
names a run that was opened, and a run counts the rows that name it. -/
structure Ledger (runs : List Run) (rows : List Exchange) (nextRun : Nat) : Prop where
  distinct : (runs.map Run.id).Nodup
  fresh : ∀ r ∈ runs, r.id < nextRun
  named : ∀ x ∈ rows, ∀ id, x.runId = some id → id < nextRun
  counted : ∀ r ∈ runs, r.requestsIssued = (rows.filter (·.runId = some r.id)).length

/-- An engagement no tool context has touched yet. -/
structure Starts (e : Engagement) : Prop where
  contexts : ∀ c, (e.context c).phase = .idle
  ledger : Ledger e.runs e.exchanges e.nextRun
  observed : ∀ x ∈ e.exchanges, x.request = none
  quiet : e.wire = [] ∧ e.replies = []

/-- All interleavings of the contexts and the other processes. -/
def system (notNull : Bool) : System Engagement Event where
  init := Starts
  step := Step notNull

end Hx.Tools
