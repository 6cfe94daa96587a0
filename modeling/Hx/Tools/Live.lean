import Hx.Python.Text
import Hx.Tools.Dispatch

/-!
# The session bracket

`run.start` launches a session for the run it opens and `run.finish` tears it down with that
run. The session stands on an inner stack of the context, and the context names the run that
owns it; the runs themselves are in a store that other processes write.

Of the store a call reads what is open once, before it writes. What another process ends in
the middle of a call is ended after it as well: nothing later in the call looks.
-/

namespace Hx.Tools.Live

open Hx.Library

/-- A session that was launched, and the run that launched it. -/
structure Session where
  id : Nat
  run : Nat
  deriving DecidableEq

/-- What `gone()` answers, or the exception it raises. -/
inductive Gone where
  | alive
  | dead (why : String)
  | raises (exc : String)

/-- What a call meets: what a launch or a teardown raises, if it does, and what a session
answers. An exception is its type and its message. -/
structure World where
  launch : Option String
  gone : Gone
  teardown : Option String
  operatorPort : Nat
  crawlerPort : Nat
  epoch : Nat

/-- A `ToolContext`. `stack` is whether the adapter has one. -/
structure Context where
  stack : Bool
  safetyProfile : String
  session : Option Session
  sessionRunId : Option Nat
  sessionStack : Option (List Session)
  registered : List (String × Nat)
  boundRunId : Option Nat

/-- The store's runs, in `started_us` order, the context, and the sessions that were ever
launched and torn down, the latter with the run whose call did it. -/
structure Bracket where
  runs : List Run
  nextRun : Nat
  context : Context
  launched : List Session
  torn : List (Session × Nat)

namespace Bracket

/-- `hx.run.open_run`. -/
def openRun (b : Bracket) (kind : Kind) : Bracket :=
  { b with runs := b.runs ++ [⟨b.nextRun, kind, .running, 0⟩], nextRun := b.nextRun + 1 }

def closeRun (b : Bracket) (id : Nat) (status : Status) : Bracket :=
  { b with runs := Tools.closeRun id status b.runs }

def bind (b : Bracket) (id : Option Nat) : Bracket :=
  { b with context := { b.context with boundRunId := id } }

/-- The sessions on the inner stack. -/
def inner (b : Bracket) : List Session := b.context.sessionStack.getD []

/-- The inner stack is made once and kept. -/
def nest (b : Bracket) : Bracket :=
  { b with context := { b.context with sessionStack := some b.inner } }

/-- A launch that answered puts its session on the inner stack. -/
def enter (b : Bracket) (runId : Nat) : Bracket :=
  { b with
    context := { b.context with
      sessionStack := some (b.inner ++ [⟨b.launched.length, runId⟩]) }
    launched := b.launched ++ [⟨b.launched.length, runId⟩] }

/-- `ExitStack.close` empties the stack whatever its callbacks raise. -/
def closeStack (b : Bracket) (runId : Nat) : Bracket :=
  { b with
    context := { b.context with sessionStack := some [] }
    torn := b.torn ++ b.inner.map fun s => (s, runId) }

/-- The bookkeeping of a session that is there, or of none. -/
def hold (b : Bracket) (session : Option Session) : Bracket :=
  { b with
    context := { b.context with
      session := session
      sessionRunId := session.map Session.run
      registered := [] } }

def TornDown (b : Bracket) (s : Session) : Prop := ∃ run, (s, run) ∈ b.torn

end Bracket

/-! ## Opening and closing -/

/-- The `session` of a `run.start` result. -/
inductive Report where
  | live (operatorPort crawlerPort epoch : Nat)
  | notLive (reason detail : String) (ownerAlive : Option Bool)

def Kind.text : Kind → String
  | .browse => "browse"
  | .crawl => "crawl"
  | .manual => "manual"
  | .scan => "scan"

def ownerText (owner : Option Nat) : String :=
  match owner with
  | some id => toString id
  | none => "None"

/-- `_held`. -/
def held (w : World) (b : Bracket) : Report :=
  let owner := ownerText b.context.sessionRunId
  let corpse (dead : String) : Report := .notLive "session_held"
    ("run " ++ owner ++ " holds this engagement's Burp and it is no longer live: " ++ dead ++
      " Waiting will not free it -- run.finish on " ++ owner ++
      " tears the dead session down, and only the run that opened a session may close it.")
    (some false)
  match w.gone with
  | .alive => .notLive "session_held"
      ("run " ++ owner ++ " holds this engagement's Burp; one session at a time. Finish that " ++
        "run first -- a scan and a manual pass are different runs and should not share an " ++
        "instrument.") (some true)
  | .dead why => corpse why
  | .raises exc => corpse ("its liveness could not be read (" ++ exc ++ ").")

def launchFailed (detail : String) : Report := .notLive "launch_failed" detail none

/-- A session that arrives dead is torn down again. -/
def arrivedDead (w : World) (runId : Nat) (dead : String) (b : Bracket) : Report × Bracket :=
  match w.teardown with
  | none => (launchFailed dead, b.closeStack runId)
  | some exc =>
      (launchFailed (dead ++ "; and tearing it down failed too: " ++ exc), b.closeStack runId)

/-- `open_for`. -/
def openFor (w : World) (runId : Nat) (kind : Kind) (b : Bracket) : Report × Bracket :=
  if kind ∉ egressKinds then
    (.notLive "not_needed" ("a " ++ Kind.text kind ++
      " run issues no traffic from this side, so it needs no session") none, b)
  else if b.context.stack = false then
    (.notLive "no_host" ("this adapter is one process per call and cannot hold a Burp open " ++
      "across calls: `hx.session.session()` tears it down on every exit. Run the tool layer " ++
      "under `hx mcp`, which is one long-lived process, or use the 11 tools that need no " ++
      "session.") none, b)
  else if b.context.session.isSome then (held w b, b)
  else
    match w.launch with
    | some exc => (launchFailed exc, b.nest)
    | none =>
        match w.gone with
        | .alive => (.live w.operatorPort w.crawlerPort w.epoch,
            (b.enter runId).hold (some ⟨b.launched.length, runId⟩))
        | .dead why => arrivedDead w runId why (b.enter runId)
        | .raises exc => arrivedDead w runId ("its liveness could not be read: " ++ exc)
            (b.enter runId)

/-- `close_for`: whether it tore the session down, or what the teardown raised. -/
def closeFor (w : World) (runId : Nat) (b : Bracket) : Except String Bool × Bracket :=
  if b.context.session = none ∨ b.context.sessionRunId ≠ some runId then (.ok false, b)
  else
    match w.teardown with
    | none => (.ok true, (b.closeStack runId).hold none)
    | some exc => (.error exc, (b.closeStack runId).hold none)

/-! ## The two tools -/

/-- The envelope of a call. -/
inductive Outcome where
  | started (id : Nat) (kind : Kind) (safetyProfile : String) (session : Report)
  | finished (id : Nat) (status : Status) (sessionClosed : Bool)
  | refused (reason detail : String)
  | unavailable (reason detail : String)
  | error (detail : String)

/-- Something was done: the call was neither refused nor unavailable. -/
def Outcome.accepted : Outcome → Bool
  | .started .. | .finished .. | .error _ => true
  | .refused .. | .unavailable .. => false

/-- The first open run of a kind. -/
def openOfKind (runs : List Run) (kind : Kind) : Option Nat :=
  ((openRuns runs).find? (·.2 = kind)).map (·.1)

/-- `run.start`. -/
def start (kind : Kind) (w : World) (b : Bracket) : Outcome × Bracket :=
  match openOfKind b.runs kind with
  | some id => (.refused "run_open" ("a " ++ Kind.text kind ++ " run is already open: " ++
      toString id ++ "; run.finish closes it"), b)
  | none =>
      let opened := openFor w b.nextRun kind ((b.openRun kind).bind (some b.nextRun))
      (.started b.nextRun kind b.context.safetyProfile opened.1, opened.2)

/-- The bound run, or the only one of the snapshot. -/
def runId (b : Bracket) (running : List (Nat × Kind)) : Option Nat :=
  match b.context.boundRunId with
  | some id => some id
  | none =>
      match running with
      | [(id, _)] => some id
      | _ => none

/-- Where a kind stands among the kinds in alphabetical order. -/
def Kind.rank : Kind → Nat
  | .browse => 0
  | .crawl => 1
  | .manual => 2
  | .scan => 3

def kindsText (running : List (Nat × Kind)) : String :=
  ", ".intercalate (((running.map (·.2)).mergeSort fun k l => Kind.rank k ≤ Kind.rank l).map
    Kind.text)

/-- Which run `run.finish` closes, or what it answers instead. -/
def finishTarget (kind : Option Kind) (b : Bracket) : Except Outcome Nat :=
  match kind with
  | some kind =>
      match openOfKind b.runs kind with
      | some id => .ok id
      | none => .error (.unavailable "no_run" ("no " ++ Kind.text kind ++
          " run is open on this context; run.start opens one"))
  | none =>
      match runId b (openRuns b.runs) with
      | some id => .ok id
      | none =>
          if 1 < (openRuns b.runs).length then
            .error (.refused "bad_args" (toString (openRuns b.runs).length ++ " runs are open (" ++
              kindsText (openRuns b.runs) ++ "); run.finish needs kind to say which one"))
          else .error (.unavailable "no_run" "no run is open on this context; run.start opens one")

/-- The end of `run.finish`. -/
def finishClosing (status : Status) (closed : Nat) (w : World) (b : Bracket) : Outcome × Bracket :=
  match closeFor w closed (b.closeRun closed status) with
  | (.error exc, after) => (.error exc, after)
  | (.ok torn, after) =>
      (.finished closed status torn,
        if runId after (openRuns b.runs) = some closed then after.bind none else after)

/-- `run.finish`. -/
def finish (status : Status) (kind : Option Kind) (w : World) (b : Bracket) : Outcome × Bracket :=
  match finishTarget kind b with
  | .error answer => (answer, b)
  | .ok closed => finishClosing status closed w b

/-! ## The door -/

inductive Call where
  | start (kind : Kind)
  | finish (status : Status) (note : Option String) (kind : Option Kind)

def Call.name : Call → String
  | .start _ => "run.start"
  | .finish .. => "run.finish"

/-- `HALT_EXEMPT`. -/
def haltExempt : List String := ["run.finish"]

/-- `schema.validate`. A kind and a status are read as the words of their vocabularies. -/
def problems : Call → List String
  | .start _ => []
  | .finish status note _ =>
      (if status ∈ agentStatuses then []
        else ["args.status: not one of ['aborted', 'completed', 'error']"]) ++
      if 500 < (note.getD "").length then ["args.note: longer than 500 characters"] else []

/-- What `dispatch` refuses before the handler; `halt` is the reason of a halted engagement. -/
def refusal (halt why : Option String) (call : Call) : Option Outcome :=
  if halt.isSome ∧ call.name ∉ haltExempt then some (.refused "halted" (halt.getD ""))
  else if Python.strip (why.getD "").toList = [] then
    some (.refused "missing_why" (call.name ++ " changes state, so it needs a `why`: it is " ++
      "written to agent_action and read by whoever asks what this run did."))
  else if 500 < (why.getD "").length then
    some (.refused "bad_args" ("why must be at most 500 characters, got " ++
      toString (why.getD "").length))
  else if problems call ≠ [] then some (.refused "bad_args" ("; ".intercalate (problems call)))
  else none

/-- The handlers. -/
def handle (w : World) (b : Bracket) : Call → Outcome × Bracket
  | .start kind => start kind w b
  | .finish status _ kind => finish status kind w b

def dispatch (halt why : Option String) (call : Call) (w : World) (b : Bracket) :
    Outcome × Bracket :=
  match refusal halt why call with
  | some answer => (answer, b)
  | none => handle w b call

/-! ## Runs -/

/-- What can happen next: a call on the context, or another process that closes, aborts or
reaps a run. -/
inductive Event where
  | called (halt why : Option String) (call : Call) (w : World)
  | endedElsewhere (id : Nat) (status : Status)

inductive Step : Bracket → Event → Bracket → Prop where
  | called {b : Bracket} (halt why : Option String) (call : Call) (w : World) :
      Step b (.called halt why call w) (dispatch halt why call w b).2
  | endedElsewhere {b : Bracket} (id : Nat) {status : Status} (ends : status ≠ .running) :
      Step b (.endedElsewhere id status) (b.closeRun id status)

/-- A context that made no call yet, on any store. -/
structure Fresh (b : Bracket) : Prop where
  distinct : (b.runs.map Run.id).Nodup
  fresh : ∀ r ∈ b.runs, r.id < b.nextRun
  session : b.context.session = none ∧ b.context.sessionRunId = none ∧
    b.context.sessionStack = none
  unbound : b.context.boundRunId = none
  none_launched : b.launched = [] ∧ b.torn = []

def system : System Bracket Event where
  init := Fresh
  step := Step

end Hx.Tools.Live
