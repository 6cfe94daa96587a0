import Hx.Library.Effects
import Hx.Store.Records
import Hx.Tools.Schema
import Hx.Checks.Passive

/-!
# Frames and the rows they write

`Capture.on_exchange` reads a frame's header, asks for the run it belongs to and writes the
rows. Any statement can fail, and so can any write of a blob; the four writes of an exchange
are one transaction. How a value becomes an `int`, how a URL is normalised and redacted and
what a blob's digest is are parameters.
-/

namespace Hx.Frames

open Hx.Library Hx.Store Hx.Tools Hx.Checks

/-! ## The header -/

abbrev Header := List (String × PyValue)

namespace Header

/-- `header.get(key, default)`. -/
def get (h : Header) (key : String) (default : PyValue) : PyValue :=
  ((h.find? fun entry => entry.1 == key).map (·.2)).getD default

end Header

/-- `bool(value)`. -/
def truthy : PyValue → Bool
  | .none => false
  | .bool b => b
  | .int n => n != 0
  | .float (.finite mantissa _) => mantissa != 0
  | .float _ => true
  | .str s => !s.isEmpty
  | .list items => !items.isEmpty
  | .dict entries => !entries.isEmpty
  | .other _ => true

/-- `value or default`. -/
def orDefault (value default : PyValue) : PyValue := if truthy value then value else default

def reads (value : PyValue) (s : String) : Bool :=
  match value with
  | .str t => t == text s
  | _ => false

def str (s : String) : PyValue := .str (text s)

/-- `FRAME_TYPES`. -/
inductive FrameType where
  | exchange
  | denial
  | dropped

def frameType (value : PyValue) : Option FrameType :=
  if reads value "exchange" then some .exchange
  else if reads value "denial" then some .denial
  else if reads value "dropped" then some .dropped
  else none

/-- `VIA_VALUES`. -/
inductive Via where
  | proxy
  | send
  | crawl
  deriving DecidableEq

def viaOf (value : PyValue) : Option Via :=
  if reads value "proxy" then some .proxy
  else if reads value "send" then some .send
  else if reads value "crawl" then some .crawl
  else none

inductive DiscoveredBy where
  | proxy
  | crawl
  | agent
  deriving DecidableEq

/-- `DISCOVERED_BY`. -/
def discoveredBy : Via → DiscoveredBy
  | .proxy => .proxy
  | .crawl => .crawl
  | .send => .agent

/-- `EXCHANGE_OUTCOMES`. -/
def exchangeOutcomes : List ExchangeOutcome :=
  [.ok, .timeout, .connRefused, .dnsError, .tlsError, .scopeDenied, .rateLimited, .bridgeLost,
    .truncated, .statusUnreadable]

def outcomeOf (value : PyValue) : Option ExchangeOutcome :=
  exchangeOutcomes.find? fun outcome => reads value outcome.text

/-- `DENIAL_KINDS`. -/
inductive DenialKind where
  | scope
  | method
  | dangerous
  | rate
  | budget
  | notConfigured
  | credential
  deriving DecidableEq

/-- `DENIAL_KIND`. -/
def denialKinds : List (String × DenialKind) :=
  [("scope_denied", .scope), ("method_denied", .method), ("dangerous_denied", .dangerous),
    ("rate_limited", .rate), ("budget_exhausted", .budget), ("not_configured", .notConfigured),
    ("unmanaged_credential", .credential), ("unknown_identity", .credential),
    ("identity_origin", .credential)]

/-- `AMBIGUOUS_ISSUANCE` and `UNRECORDABLE`: a class with no row where nothing was issued. -/
def rowless : List String :=
  ["timeout", "bridge_lost", "transport_error", "halted", "bad_frame", "engagement_mismatch",
    "protocol_mismatch", "bad_config", "unknown_frame", "bad_identity", "stale_generation"]

/-- The exceptions. The first eight are the header's; `failed` is the database's or the blob
store's. -/
inductive Raised where
  | unknownType
  | malformedDrops
  | unknownVia
  | noUrl
  | unplaced
  | badMs
  | unknownOutcome
  | badUrl
  | incoherent
  | unredactable
  | failed
  deriving DecidableEq

/-- `row_for(error_class, issued=False)`: a denial's kind, or no row. -/
def rowFor (errorClass : PyValue) : Except Raised (Option DenialKind) :=
  match denialKinds.find? fun entry => reads errorClass entry.1 with
  | some entry => .ok (some entry.2)
  | none => if rowless.any (reads errorClass) then .ok none else .error .unplaced

/-! ## Rows -/

structure RunRow where
  engagement : String
  run : Store.Run
  requestsIssued : Nat
  droppedTotal : Nat

structure ExchangeRow where
  id : Nat
  runId : Nat
  surfaceId : Option Nat
  via : Via
  outcome : ExchangeOutcome
  sentUs : Int
  recvUs : Int
  method : PyValue
  url : PyValue
  status : PyValue
  reqBlob : Option String
  respBlob : Option String
  respLen : Option Nat

/-- The columns of the `UNIQUE` constraint. -/
structure SurfaceKey where
  engagement : String
  method : String
  scheme : String
  host : String
  port : Int
  pathTemplate : String
  queryKeySet : String
  deriving DecidableEq

inductive SurfaceKind where
  | idempotentRead
  | stateChanging
  | unknown
  deriving DecidableEq

structure SurfaceRow where
  id : Nat
  key : SurfaceKey
  kind : SurfaceKind
  discoveredBy : DiscoveredBy
  normaliserVersion : Nat
  firstSeenRun : Nat
  lastSeenRun : Nat
  exemplarExchangeId : Nat

structure DenialRow where
  id : Nat
  runId : Nat
  tsUs : Int
  kind : DenialKind
  method : PyValue
  url : PyValue
  reason : PyValue
  via : Via

structure Database where
  runs : List RunRow
  exchanges : List ExchangeRow
  surfaces : List SurfaceRow
  denials : List DenialRow

namespace Database

/-- Every run update names one run. -/
def onRun (db : Database) (id : Nat) (change : RunRow → RunRow) : Database :=
  { db with runs := db.runs.map fun r => if r.run.id = id then change r else r }

def beat (db : Database) (id : Nat) (at_ : Int) : Database :=
  db.onRun id fun r =>
    if r.run.status = .running then { r with run := { r.run with heartbeatUs := some at_ } } else r

def close (db : Database) (id : Nat) (at_ : Int) (status : RunStatus)
    (stopReason : Option String) : Database :=
  db.onRun id fun r =>
    if r.run.status = .running then
      { r with run := { r.run with status, endedUs := some at_, stopReason } }
    else r

/-- `UPDATE run SET requests_issued = requests_issued + 1 WHERE id=?`. -/
def countRequest (db : Database) (id : Nat) : Database :=
  db.onRun id fun r => { r with requestsIssued := r.requestsIssued + 1 }

def countDrop (db : Database) (id n : Nat) : Database :=
  db.onRun id fun r => { r with droppedTotal := r.droppedTotal + n }

/-- The `SELECT` of `current_run`. -/
def liveRun (db : Database) (engagement : String) (kind : RunKind) : Option Store.Run :=
  Engagement.latest <| (db.runs.filter fun r =>
    r.engagement = engagement ∧ r.run.kind = kind ∧ r.run.status = .running).map (·.run)

def addExchange (db : Database) (x : ExchangeRow) : Database :=
  { db with exchanges := db.exchanges ++ [x] }

/-- `INSERT … ON CONFLICT … DO UPDATE SET last_seen_run=excluded.last_seen_run`. -/
def upsert (db : Database) (row : SurfaceRow) : Database :=
  { db with surfaces :=
      if db.surfaces.any (·.key = row.key) then
        db.surfaces.map fun s =>
          if s.key = row.key then { s with lastSeenRun := row.lastSeenRun } else s
      else db.surfaces ++ [row] }

/-- The `SELECT` behind the upsert. -/
def surfaceAt (db : Database) (key : SurfaceKey) : Option Nat :=
  (db.surfaces.find? fun s => s.key = key).map (·.id)

/-- `UPDATE exchange SET surface_id=? WHERE id=?`. -/
def setSurface (db : Database) (surface exchange : Nat) : Database :=
  { db with exchanges := db.exchanges.map fun x =>
      if x.id = exchange then { x with surfaceId := some surface } else x }

end Database

/-! ## Reading a header -/

/-- What `surface.normalise` answers with. -/
structure Normalised where
  method : String
  scheme : String
  host : String
  port : Int
  pathTemplate : String
  queryKeySet : String
  kind : SurfaceKind
  normaliserVersion : Nat

/-- A `Capture`, with what it calls: `int`, `surface.normalise` under its configuration,
`redact_url`, all of which may raise, and a blob's digest. -/
structure Capture where
  engagementId : String
  int : PyValue → Option Int
  normalise : PyValue → PyValue → Option Normalised
  redactUrl : PyValue → Option PyValue
  digest : List UInt8 → String

/-- What there is to write of an exchange. -/
structure Exchange where
  kind : RunKind
  via : Via
  method : PyValue
  url : PyValue
  status : PyValue
  ms : Int
  outcome : ExchangeOutcome
  normalised : Normalised

/-- What a header asks for. -/
inductive Reading where
  | nothing
  | dropped (kind : RunKind) (n : Nat)
  | denial (kind : RunKind) (denial : DenialKind) (via : Via) (method url detail : PyValue)
  | exchange (e : Exchange)

/-- The kind of run a `source` belongs to. -/
def runKind (h : Header) : RunKind :=
  if reads (h.get "source" (str "operator")) "crawler" then .crawl else .browse

def orRefuse {α : Type} (raised : Raised) : Option α → Except Raised α
  | none => .error raised
  | some a => .ok a

def readDropped (c : Capture) (h : Header) : Except Raised Reading := do
  let n ← orRefuse .malformedDrops (c.int (h.get "n" (.int 1)))
  if n < 1 then .error .malformedDrops else .ok (.dropped (runKind h) n.toNat)

def readDenial (h : Header) (via : Via) (method url : PyValue) : Except Raised Reading := do
  match ← rowFor (orDefault (h.get "error_class" .none) (str "")) with
  | none => .ok .nothing
  | some kind =>
      .ok (.denial (runKind h) kind via method url (orDefault (h.get "detail" .none) (str "")))

def readExchange (c : Capture) (h : Header) (via : Via) (method url : PyValue) :
    Except Raised Reading := do
  let ms ← orRefuse .badMs (c.int (orDefault (h.get "ms" .none) (.int 0)))
  let outcome ← orRefuse .unknownOutcome
    (outcomeOf (orDefault (h.get "outcome" .none) (str "ok")))
  let normalised ← orRefuse .badUrl (c.normalise method url)
  .ok (.exchange ⟨runKind h, via, method, url, h.get "status" .none, ms, outcome, normalised⟩)

/-- `on_exchange` above `_run`: everything a header is refused for before a run is asked for. -/
def read (c : Capture) (h : Header) : Except Raised Reading := do
  match ← orRefuse .unknownType (frameType (h.get "t" (str "exchange"))) with
  | .dropped => readDropped c h
  | .denial => do
      let via ← orRefuse .unknownVia (viaOf (h.get "via" (str "proxy")))
      let url := h.get "url" .none
      if truthy url then readDenial h via (orDefault (h.get "method" .none) (str "")) url
      else .error .noUrl
  | .exchange => do
      let via ← orRefuse .unknownVia (viaOf (h.get "via" (str "proxy")))
      let url := h.get "url" .none
      if truthy url then readExchange c h via (orDefault (h.get "method" .none) (str "")) url
      else .error .noUrl

/-! ## Statements -/

/-- A database, the ids handed out, and the statements and clock readings since the frame
came in. -/
structure Session where
  db : Database
  nextId : Nat
  tick : Nat

/-- A frame, with what happens while it is handled: which statements fail, and the clock. -/
structure Frame where
  header : Header
  request : List UInt8
  response : List UInt8
  fault : Nat → Bool
  now : Nat → Int

abbrev Act := Prog Session Raised

section Statements

variable (c : Capture) (f : Frame)

def ask {α : Type} (g : Nat → α) : Act α := fun s => (.ok (g s.tick), { s with tick := s.tick + 1 })

/-- A statement, or the write of a blob. -/
def statement : Act Unit := do
  if ← ask f.fault then Prog.raise .failed else pure ()

def write (change : Database → Database) : Act Unit := do
  statement f
  Prog.modify fun s => { s with db := change s.db }

def newId : Act Nat := fun s => (.ok s.nextId, { s with nextId := s.nextId + 1 })

def orRaise {α : Type} (raised : Raised) : Option α → Act α
  | none => Prog.raise raised
  | some a => pure a

/-- `BEGIN`, the statements, and `COMMIT`; what raises rolls back. -/
def transaction {α : Type} (body : Act α) : Act α := fun s =>
  match (statement f >>= fun _ => body >>= fun a => statement f >>= fun _ => pure a) s with
  | (.ok a, t) => (.ok a, t)
  | (.error raised, t) => (.error raised, { t with db := s.db })

/-- The row of a run that was just opened. -/
def opened (id : Nat) (kind : RunKind) (at_ : Int) : RunRow where
  engagement := c.engagementId
  run := { id, kind, startedUs := at_, heartbeatUs := some at_ }
  requestsIssued := 0
  droppedTotal := 0

/-- `open_run`. -/
def openRun (kind : RunKind) (at_ : Int) : Act Nat := do
  let id ← newId
  write f fun db => { db with runs := db.runs ++ [opened c id kind at_] }
  pure id

/-- `current_run`. -/
def currentRun (kind : RunKind) : Act Nat := do
  let at_ ← ask f.now
  statement f
  match ← Prog.gets fun s => s.db.liveRun c.engagementId kind with
  | none => openRun c f kind at_
  | some r =>
      if at_ - Engagement.lastSeen r ≤ idleCloseUs then pure r.id
      else do
        write f fun db => db.close r.id (Engagement.lastSeen r) .completed (some "idle")
        openRun c f kind at_

/-- The run of a frame, and its heartbeat. -/
def beating (kind : RunKind) : Act (Nat × Int) := do
  let run ← currentRun c f kind
  let at_ ← ask f.now
  write f fun db => db.beat run at_
  pure (run, at_)

/-- `blobs.put(body) if body else (None, None)`. -/
def put (body : List UInt8) : Act (Option String) :=
  if body = [] then pure none
  else do
    statement f
    pure (some (c.digest body))

/-- `status == 599`. -/
def isUnreadable : PyValue → Bool
  | .int n => n == 599
  | .float x => x.equals (.finite 599 0)
  | _ => false

def isNone : PyValue → Bool
  | .none => true
  | _ => false

/-- The three guards of `record_exchange`. -/
def coherent (outcome : ExchangeOutcome) (status : PyValue) : Bool :=
  !(isNone status && (outcome == .ok || outcome == .truncated)) &&
  !(outcome == .statusUnreadable && !isUnreadable status) &&
  !(outcome ∈ [.timeout, .connRefused, .dnsError, .tlsError, .bridgeLost] && !isNone status)

/-- `record_exchange`. -/
def recordExchange (e : Exchange) (run : Nat) (at_ : Int) (reqBlob respBlob : Option String)
    (respLen : Option Nat) : Act Nat := do
  if !coherent e.outcome e.status then Prog.raise .incoherent
  else
    let url ← orRaise .unredactable (c.redactUrl e.url)
    let id ← newId
    write f fun db => db.addExchange
      ⟨id, run, none, e.via, e.outcome, at_, at_ + e.ms * 1000, e.method, url, e.status, reqBlob,
        respBlob, respLen⟩
    pure id

/-- The columns of `UNIQUE` for an engagement. -/
def surfaceKey (n : Normalised) : SurfaceKey :=
  ⟨c.engagementId, n.method, n.scheme, n.host, n.port, n.pathTemplate, n.queryKeySet⟩

/-- `upsert_surface`. -/
def upsertSurface (n : Normalised) (exchange run : Nat) (via : Via) : Act Nat := do
  let id ← newId
  write f fun db => db.upsert
    ⟨id, surfaceKey c n, n.kind, discoveredBy via, n.normaliserVersion, run, run, exchange⟩
  statement f
  orRaise .failed (← Prog.gets fun s => s.db.surfaceAt (surfaceKey c n))

/-- The four writes of an exchange. -/
def rowWrites (e : Exchange) (run : Nat) (at_ : Int) (reqBlob respBlob : Option String)
    (respLen : Option Nat) : Act Nat := do
  let exchange ← recordExchange c f e run at_ reqBlob respBlob respLen
  write f fun db => db.countRequest run
  let surface ← upsertSurface c f e.normalised exchange run e.via
  write f fun db => db.setSurface surface exchange
  pure exchange

/-- `on_exchange` from `_run` on. -/
def handle : Reading → Act (Option Nat)
  | .nothing => pure none
  | .dropped kind n => do
      let (run, _) ← beating c f kind
      write f fun db => db.countDrop run n
      pure none
  | .denial kind denial via method url detail => do
      let (run, at_) ← beating c f kind
      let url ← orRaise .unredactable (c.redactUrl url)
      let id ← newId
      write f fun db => { db with denials := db.denials ++
        [⟨id, run, at_, denial, method, url, detail, via⟩] }
      pure none
  | .exchange e => do
      let (run, at_) ← beating c f e.kind
      let reqBlob ← put c f f.request
      let respBlob ← put c f f.response
      let respLen := respBlob.map fun _ => f.response.length
      let exchange ← transaction f (rowWrites c f e run at_ reqBlob respBlob respLen)
      pure (some exchange)

/-- `on_exchange`. -/
def onExchange : Act (Option Nat) :=
  match read c f.header with
  | .error raised => Prog.raise raised
  | .ok reading => handle c f reading

end Statements

/-- The session a frame leaves behind. -/
def next (c : Capture) (s : Session) (f : Frame) : Session :=
  (onExchange c f { s with tick := 0 }).2

/-- The session a sequence of frames leaves behind. -/
def after (c : Capture) (frames : List Frame) (s : Session) : Session := frames.foldl (next c) s

end Hx.Frames
