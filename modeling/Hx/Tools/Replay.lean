import Hx.Issue.HttpText
import Hx.Issue.Request

/-!
# `http.replay_as`

One stored request is issued again under several identities. What the store, the environment
and the extension answer is a `World`; what the call did to the extension, registrations and
sends, is its log.
-/

namespace Hx.Tools.Replay

open Hx.Python Hx.Issue Hx.Issue.HttpText Hx.Library.Lines

/-! ## What the call meets -/

/-- `CREDENTIAL_HEADERS`. The config loader admits no other for an identity. -/
inductive CredentialHeader where
  | cookie
  | authorization
  | proxyAuthorization
  deriving DecidableEq

def CredentialHeader.text : CredentialHeader → Text
  | .cookie => txt "Cookie"
  | .authorization => txt "Authorization"
  | .proxyAuthorization => txt "Proxy-Authorization"

def credentialHeaders : List CredentialHeader := [.cookie, .authorization, .proxyAuthorization]

/-- A declared identity. -/
structure Identity where
  id : Text
  strategy : Text
  header : CredentialHeader
  valueFromEnv : Option Text

/-- A row of `exchange`. -/
structure Stored where
  reqBlob : Option String
  respBlob : Option String
  respLen : Option ℕ
  status : Option Int
  method : Text
  url : Text

structure BridgeError where
  errorClass : Option Text
  text : Text

/-- A `result` frame, and what writing its row and its digest leaves: the row's id and the
delta against the surface's baseline, or an exception. -/
structure Result where
  status : Option Int
  outcome : Text
  ms : ℕ
  response : List UInt8
  recorded : Except Text (Text × Option Checks.Delta)

inductive Answer where
  | refused (e : BridgeError)
  | result (r : Result)

/-- What the store, the environment and the extension answer, the latter to the `n`-th
registration and the `n`-th send of the call. An error of `blob` is a `CorruptBlob`. -/
structure World where
  stored : Option Stored
  blob : String → Option ℕ → Except Text (List UInt8)
  identities : List (Text × Identity)
  env : Text → Option Text
  registered : List (Text × ℕ)
  register : ℕ → Option BridgeError
  send : ℕ → Answer
  sha256 : List UInt8 → Text

/-- The arguments of the tool. -/
structure Args where
  exchangeId : Text
  identities : List Text
  includeAnonymous : Bool

/-! ## What the call does and answers -/

structure Destination where
  targetHost : Text
  targetPort : ℕ
  tls : Bool
  identityId : Option Text
  deriving DecidableEq

inductive Event where
  | registered (id : Text) (generation : ℕ)
  | sent (req : Destination) (raw : List UInt8)
  deriving DecidableEq

structure Digest where
  exchangeId : Text
  status : Option Int
  bytes : ℕ
  ms : ℕ
  outcome : Text
  contentType : Option Text
  bodySha256 : Text
  firstLine : Text
  deltaVsBaseline : Option Checks.Delta

structure NotAnswered where
  outcome : Text
  reason : Text
  detail : Option Text

structure Row where
  identity : Option Text
  digest : Option Digest
  notAnswered : Option NotAnswered
  diffVsOriginal : Option Checks.Delta
  differs : Option Bool

/-- `envelope.page` with its facets. -/
structure Page where
  rows : List Row
  returned : ℕ
  total : ℕ
  truncated : Bool
  original : Text
  originalStatus : Option Int
  originalBodyStored : Bool

inductive Outcome where
  | answered (page : Page)
  | refused (reason : String) (detail : Text)
  | unavailable (reason : String) (detail : Text)
  | error (detail : Text)

/-! ## The classes of the wire -/

/-- `REASON_FOR_CLASS`: every class keeps its name as the reason. -/
def refusedClasses : List String :=
  ["scope_denied", "method_denied", "dangerous_denied", "rate_limited", "budget_exhausted",
    "halted", "unmanaged_credential", "unknown_identity", "identity_origin", "bad_frame",
    "unknown_frame", "protocol_mismatch", "engagement_mismatch", "bad_config", "bad_identity",
    "stale_generation"]

def unavailableClasses : List String :=
  ["identity_dead", "not_configured", "bridge_lost", "transport_error", "timeout"]

/-- `_classify`: outcome, reason and detail. -/
def classify (T : ErrorTexts) (reason detail : Text) : NotAnswered :=
  let detail' := fun d : Text => if d = [] then none else some d
  if (refusedClasses.map txt).contains reason then ⟨txt "refused", reason, detail' detail⟩
  else if (unavailableClasses.map txt).contains reason then
    ⟨txt "unavailable", reason, detail' detail⟩
  else ⟨txt "unavailable", txt "transport_error", detail' ((txt "[unmapped class " ++
    T.repr reason ++ txt "] " ++ detail).rdropWhile isSpace)⟩

/-- `str.removeprefix`. -/
def removePrefix (front s : Text) : Text := if front.isPrefixOf s then s.drop front.length else s

/-- The class of a `BridgeError`, and what its text says besides. -/
def wireClass (e : BridgeError) : Text × Text :=
  let cls := e.errorClass.getD (txt "transport_error")
  (cls, removePrefix (cls ++ txt ": ") e.text)

/-- `_raise_for_class`. -/
def raiseForClass (T : ErrorTexts) (reason detail : Text) : Outcome :=
  let said := classify T reason detail
  if said.outcome = txt "refused" then
    .refused (String.ofList said.reason) (said.detail.getD said.reason)
  else .unavailable (String.ofList said.reason) (said.detail.getD said.reason)

/-! ## The stored request -/

/-- `s.partition(sep)` for a separator of several characters. -/
def partitionText (sep : Text) : Text → Text × Option Text
  | [] => ([], none)
  | c :: rest =>
      if sep.isPrefixOf (c :: rest) then ([], some ((c :: rest).drop sep.length))
      else (c :: (partitionText sep rest).1, (partitionText sep rest).2)

/-- `DEFAULT_PORTS.get(scheme, 80)`. -/
def defaultPort (scheme : Text) : ℕ := if scheme = txt "https" then 443 else 80

def isAsciiDigit (c : Char) : Bool := 48 ≤ c.toNat && c.toNat ≤ 57

/-- The host and the port of an authority. A number of too many digits raises. -/
def hostPort (scheme authority : Text) : Except Text (Text × ℕ) :=
  let after := afterLast ':' authority
  if authority.contains ':' ∧ ¬ after.contains ']' ∧ after ≠ [] ∧ after.all isAsciiDigit then
    if after.length ≤ maxStrDigits then
      .ok (authority.take (authority.length - (after.length + 1)),
        after.foldl (fun n c => 10 * n + (c.toNat - 48)) 0)
    else .error (txt "ValueError: Exceeds the limit (4300 digits) for integer string " ++
      txt "conversion: value has " ++ txt (toString after.length) ++
      txt " digits; use sys.set_int_max_str_digits() to increase the limit")
  else .ok (authority, defaultPort scheme)

/-- The authority of what follows `://`, without userinfo. -/
def authorityOf (rest : Text) : Text :=
  afterLast '@' (rest.takeWhile fun c => c ≠ '/' && c ≠ '?' && c ≠ '#')

/-- The line `raw.split(b"\n", 1)[0].rstrip(b"\r")`. -/
def requestLine (raw : List UInt8) : List UInt8 := chomp (raw.takeWhile fun b => b ≠ 10)

/-- `_parts_of`. -/
def partsOf (T : ErrorTexts) (url : Text) (raw : List UInt8) :
    Except Outcome (Text × Text × ℕ × Text) :=
  match partitionText (txt "://") url with
  | (_, none) => .error (.refused "bad_args" (txt "the stored url " ++ T.repr url ++
      txt " has no authority, so there is no host to replay this exchange against."))
  | (scheme, some rest) =>
      match hostPort scheme (authorityOf rest) with
      | .error exc => .error (.error exc)
      | .ok (host, port) =>
          match (latin1 (requestLine raw)).splitOn ' ' with
          | _ :: ('/' :: path) :: _ => .ok (scheme, host, port, '/' :: path)
          | _ => .error (.refused "bad_args" (txt "the stored request line " ++
              T.repr (latin1 (requestLine raw)) ++
              txt " carries no origin-form target, so there is no path to replay."))

/-- The names that `_replayed_headers` drops. -/
def dropNames (w : World) : List Text :=
  credentialHeaders.map (fun h => lower h.text) ++
    w.identities.map (fun ident => lower (strip ident.2.header.text)) ++ [txt "content-length"]

/-- Whether a line has a colon, and a name before it that is dropped. -/
def isDropped (w : World) (line : List UInt8) : Bool :=
  line.contains 58 && (dropNames w).contains (lower (strip (latin1 (partition 58 line).1)))

/-- `_replayed_headers`. -/
def replayedHeaders (w : World) (raw : List UInt8) : List Text :=
  ((Checks.OpenRedirect.headerLines (splitHeadBody raw).1).filter fun line =>
    line.contains 58 && !isDropped w line).map latin1

/-- `_replayed_body`. -/
def replayedBody (raw : List UInt8) : List UInt8 := (splitHeadBody raw).2

/-- What every row of the call issues. -/
structure Composed where
  scheme : Text
  host : Text
  port : ℕ
  method : Text
  path : Text
  headers : List Text
  body : List UInt8

def compose (T : ErrorTexts) (w : World) (stored : Stored) (raw : List UInt8) :
    Except Outcome Composed :=
  match partsOf T stored.url raw with
  | .error out => .error out
  | .ok (scheme, host, port, path) =>
      .ok ⟨scheme, host, port, stored.method, path, replayedHeaders w raw, replayedBody raw⟩

/-- `request_bytes` of it. -/
def Composed.bytes (D : Decimals) (c : Composed) : Except RequestError (List UInt8) :=
  requestBytes D c.method c.path c.host c.headers c.body

/-- The response body the replays are compared with, if it is stored and readable. -/
def baseBody (w : World) (stored : Stored) : Option (List UInt8) :=
  match stored.respBlob with
  | none => none
  | some digest =>
      if digest = "" then none
      else
        match w.blob digest stored.respLen with
        | .error _ => none
        | .ok raw => some (splitHeadBody raw).2

/-! ## Identities -/

/-- Before in the order of their characters. -/
def textLe : Text → Text → Bool
  | [], _ => true
  | _ :: _, [] => false
  | c :: s, d :: t => c.toNat < d.toNat || (c.toNat == d.toNat && textLe s t)

/-- `declaration_of`. -/
def declarationOf (T : ErrorTexts) (w : World) (name : Text) : Except Text Identity :=
  match w.identities.find? (·.1 = name) with
  | some (_, ident) => .ok ident
  | none => .error (txt "identity " ++ T.repr name ++
      txt " is not declared in this config. Declared: " ++
      if w.identities = [] then txt "none"
      else T.reprAll ((w.identities.map (·.1)).mergeSort textLe))

/-- `identity.resolve`: the id and the generation of the credential. -/
def resolve (T : ErrorTexts) (w : World) (ident : Identity) : Except Text (Text × ℕ) :=
  if ident.strategy ≠ txt "static" then
    .error (txt "identity " ++ T.repr ident.id ++ txt " is " ++ T.repr ident.strategy ++
      txt " and has no environment variable to read; a programmatic identity is minted by " ++
      txt "refresh(), not resolved")
  else
    match ident.valueFromEnv.bind w.env with
    | none => .error (txt "identity " ++ T.repr ident.id ++ txt " needs " ++
        ident.valueFromEnv.getD (txt "None") ++
        txt " in the environment and it is not set. Refusing rather than issuing " ++
        txt "anonymously: an anonymous run of an authenticated application answers `clean` " ++
        txt "about a view none of its users are in")
    | some value =>
        if strip value = [] then
          .error (ident.valueFromEnv.getD (txt "None") ++
            txt " is set but empty, for identity " ++ T.repr ident.id)
        else .ok (ident.id, 1)

/-- What the extension holds for this session, and what the call did to it so far. -/
structure Session where
  registered : List (Text × ℕ)
  log : List Event

def Event.isSent : Event → Bool
  | .registered .. => false
  | .sent .. => true

/-- `ensure_identity`. -/
def ensureIdentity (T : ErrorTexts) (w : World) (name : Text) (s : Session) :
    Except Outcome (Text × ℕ) × Session :=
  match declarationOf T w name with
  | .error text => (.error (.refused "bad_args" text), s)
  | .ok ident =>
      match resolve T w ident with
      | .error text => (.error (.unavailable "identity_unresolved" text), s)
      | .ok key =>
          if s.registered.contains key then (.ok key, s)
          else
            match w.register s.log.length with
            | some e => (.error (raiseForClass T (wireClass e).1 (wireClass e).2),
                { s with log := s.log ++ [.registered key.1 key.2] })
            | none => (.ok key,
                ⟨key :: s.registered, s.log ++ [.registered key.1 key.2]⟩)

def ensureAll (T : ErrorTexts) (w : World) : List Text → Session →
    Except Outcome (List (Text × ℕ)) × Session
  | [], s => (.ok [], s)
  | name :: names, s =>
      match ensureIdentity T w name s with
      | (.error out, after) => (.error out, after)
      | (.ok key, after) =>
          match ensureAll T w names after with
          | (.error out, last) => (.error out, last)
          | (.ok keys, last) => (.ok (key :: keys), last)

/-! ## The rows -/

/-- A row that was not answered. -/
def refusedRow (T : ErrorTexts) (name : Option Text) (e : BridgeError) : Row :=
  let cls := (wireClass e).1
  let detail := if (wireClass e).2 = cls then [] else (wireClass e).2
  ⟨name, none, some (classify T cls detail), none, none⟩

def digestOf (w : World) (r : Result) (exchangeId : Text) (delta : Option Checks.Delta) : Digest :=
  let head := (splitHeadBody r.response).1
  { exchangeId := exchangeId
    status := r.status
    bytes := r.response.length
    ms := r.ms
    outcome := r.outcome
    contentType := (Checks.OpenRedirect.headerValues head "content-type").head?
    bodySha256 := txt "sha256:" ++ w.sha256 (splitHeadBody r.response).2
    firstLine := latin1 (chomp (head.takeWhile fun b => b ≠ 10))
    deltaVsBaseline := delta }

/-- A row that was answered, and its comparison with the original. -/
def answeredRow (w : World) (stored : Stored) (base : Option (List UInt8)) (name : Option Text)
    (r : Result) (exchangeId : Text) (delta : Option Checks.Delta) : Row :=
  let body := (splitHeadBody r.response).2
  { identity := name
    digest := some (digestOf w r exchangeId delta)
    notAnswered := none
    diffVsOriginal := base.map fun b => Checks.against stored.status b r.status body
    differs := base.map fun b => decide (stored.status ≠ r.status) || decide (b ≠ body) }

/-- The loop over the plan, from the `n`-th send on: the rows, or what a send raised. -/
def replays (T : ErrorTexts) (w : World) (stored : Stored) (base : Option (List UInt8))
    (c : Composed) (raw : List UInt8) :
    List (Option Text × Option (Text × ℕ)) → ℕ → Except Text (List Row) × List Event
  | [], _ => (.ok [], [])
  | (name, ident) :: plan, n =>
      let event := Event.sent ⟨c.host, c.port, c.scheme = txt "https", ident.map (·.1)⟩ raw
      let later := replays T w stored base c raw plan (n + 1)
      match w.send n with
      | .refused e => (later.1.map (refusedRow T name e :: ·), event :: later.2)
      | .result r =>
          match r.recorded with
          | .error exc => (.error exc, [event])
          | .ok (exchangeId, delta) =>
              (later.1.map (answeredRow w stored base name r exchangeId delta :: ·),
                event :: later.2)

def maxIdentities : ℕ := 8

def maxLimit : ℕ := 500

/-- The plan: the identities in order, and nobody last. -/
def planOf (args : Args) (resolved : List (Text × ℕ)) :
    List (Option Text × Option (Text × ℕ)) :=
  (args.identities.map some).zip (resolved.map some) ++
    if args.includeAnonymous then [(none, none)] else []

def pageOf (args : Args) (stored : Stored) (base : Option (List UInt8)) (rows : List Row) : Page :=
  { rows := rows.take maxLimit
    returned := (rows.take maxLimit).length
    total := rows.length
    truncated := decide (maxLimit < rows.length)
    original := args.exchangeId
    originalStatus := stored.status
    originalBodyStored := base.isSome }

/-- The second half of `replay_as`: the request is composed and acceptable. -/
def replayComposed (T : ErrorTexts) (w : World) (args : Args) (stored : Stored) (c : Composed)
    (raw : List UInt8) : Outcome × List Event :=
  if args.identities = [] ∧ args.includeAnonymous = false then
    (.refused "bad_args" (txt "no identities and include_anonymous is false, so there is " ++
      txt "nothing to replay. Name at least one declared identity, or set include_anonymous " ++
      txt "to compare against no session at all."), [])
  else if maxIdentities < args.identities.length then
    (.refused "bad_args" (txt (toString args.identities.length) ++
      txt " identities is more than the " ++ txt (toString maxIdentities) ++
      txt " one replay may put on a client's application. Split the call."), [])
  else
    match args.identities.mapM (declarationOf T w) with
    | .error text => (.refused "bad_args" text, [])
    | .ok _ =>
        match ensureAll T w args.identities ⟨w.registered, []⟩ with
        | (.error out, s) => (out, s.log)
        | (.ok resolved, s) =>
            let base := baseBody w stored
            match replays T w stored base c raw (planOf args resolved) 0 with
            | (.error exc, events) => (.error exc, s.log ++ events)
            | (.ok rows, events) => (.answered (pageOf args stored base rows), s.log ++ events)

/-- `replay_as`: the envelope, and what was done to the extension. -/
def replayAs (D : Decimals) (T : ErrorTexts) (w : World) (args : Args) : Outcome × List Event :=
  match w.stored.bind fun stored => stored.reqBlob.map fun digest => (stored, digest) with
  | none => (.refused "bad_args" (txt "exchange " ++ T.repr args.exchangeId ++
      txt " has no stored request to replay. surface.detail lists the exchanges this " ++
      txt "engagement holds."), [])
  | some (stored, digest) =>
      match w.blob digest none with
      | .error corrupt => (.unavailable "unreadable" (txt "the stored request for exchange " ++
          T.repr args.exchangeId ++
          txt " could not be read, so there is nothing to replay: " ++ corrupt), [])
      | .ok raw =>
          match compose T w stored raw with
          | .error out => (out, [])
          | .ok c =>
              match c.bytes D with
              | .error e => (.refused "bad_args" (e.text T), [])
              | .ok bytes => replayComposed T w args stored c bytes

end Hx.Tools.Replay
