import Hx.Identity.Origins
import Hx.Policy.Distress
import Hx.Redact.Response
import Hx.Send.HaltSwitch
import Hx.Send.Limits
import Hx.Send.Registry
import Hx.Send.Status

/-!
# The chokepoint

Every request the extension issues passes through `issue`. Seven questions are asked in a fixed
order before the gate, which is the first to spend anything, and two behind it; only then is the
request composed and handed to `Http`. What the clock, the transport and the halt poller answer
meanwhile is a `Moment`. The clock is read without a failure except by the halt switch, which
has an answer for one.

`distress.stopReason()` is a text made of the rule and the numbers it quotes; the text is left
to the platform.
-/

namespace Hx.Send

open Hx.Java Hx.Library Hx.Bridge Hx.Policy

/-- The tables of the JVM, and what the constructors of the parts were given. -/
structure Platform where
  cases : CaseMap
  lowering : Lowering
  digits : DigitMap
  upper : JChar → JChar
  distress : DistressSettings
  switch : HaltSwitch
  stopText : StopReason → JString

/-- What `Sender` and the parts it was given hold. -/
structure Sender where
  limits : Limits
  halt : HaltSwitch.State
  distress : Distress
  announced : Bool
  byId : JString → Option Entry

/-- What `http.send` comes to. -/
inductive HttpAnswer where
  | reply (status : Int) (raw : List UInt8) (ms : Int64) (connectionError : Bool)
  | ioException (simpleName message : JString)
  | threw (text : JString)

/-- What one send meets: a clock reading for each place that reads the clock, and the answer of
the transport. -/
structure Moment where
  armed : Int64
  before : Int64
  halted : HaltSwitch.Reading
  reason : HaltSwitch.Reading
  gate : Int64
  answer : HttpAnswer
  failed : Int64
  recorded : Int64
  after : Int64

/-- What others see of a send: a call of `http.send`, and a call of the halt notifier. -/
inductive Effect where
  | issued (req : HxRequest) (wire : List UInt8) (deadlineUs : Int64)
  | told (stop : Stop)

def Effect.isTold : Effect → Bool
  | .told _ => true
  | .issued _ _ _ => false

def Effect.isIssued : Effect → Bool
  | .told _ => false
  | .issued _ _ _ => true

/-- The stops that are told. -/
def told (effects : List Effect) : List Stop :=
  effects.filterMap fun
    | .told stop => some stop
    | .issued _ _ _ => none

/-- The frame that answers a send. -/
inductive Reply where
  | error (errorClass detail : Option JString) (retryAfterUs : Option Int64)
  | result (status : Int) (redacted : List UInt8) (ms : Int64) (outcome : JString) (epoch : Nat)

/-- The header of the answer to a frame with this `id`. -/
def Reply.header (id : Option Value) : Reply → Header
  | .error errorClass detail retryAfterUs =>
      [(js "v", .long protocolVersion), (js "t", .string (js "error")),
        (js "id", id.getD .null), (js "class", errorClass.elim .null .string),
        (js "detail", detail.elim .null .string)] ++
        retryAfterUs.toList.map fun us => (js "retry_after_us", .long us)
  | .result status redacted ms outcome epoch =>
      [(js "v", .long protocolVersion), (js "t", .string (js "result")),
        (js "id", id.getD .null), (js "status", .long (Int64.ofInt status)),
        (js "bytes", .long (Int64.ofNat redacted.length)), (js "ms", .long ms),
        (js "outcome", .string outcome), (js "config_epoch", .long (Int64.ofNat epoch))]

/-- What `issue` comes to: a reply, or the text of a `Throwable` that leaves it. -/
inductive Outcome where
  | replies (reply : Reply)
  | throws (text : JString)

structure Issue where
  sender : Sender
  outcome : Outcome
  effects : List Effect

namespace Sender

/-- `error(id, cls, detail)`. -/
def error (errorClass : String) (detail : JString) : Reply :=
  .error (some (js errorClass)) (some detail) none

/-- `error(id, d)`. -/
def denied (d : Decision) : Reply :=
  .error d.errorClass d.detail
    (if d.errorClass = some (js "rate_limited") then some d.retryAfterUs else none)

/-- `unmanagedCredential`: the first of the three names that the request has a header under, as
the request spells it. -/
def unmanagedCredential (req : HxRequest) : Option JString :=
  credentialNames.findSome? fun wanted =>
    (req.headers.find? fun header => header.1.map lowerLetter == wanted).map Prod.fst

/-- A `String` as its code points; a surrogate outside a pair is one of its own. -/
def codePoints : JString → Text
  | [] => []
  | [c] => [codePoint c]
  | high :: low :: rest =>
      if isHighSurrogate high && isLowSurrogate low then pairPoint high low :: codePoints rest
      else codePoint high :: codePoints (low :: rest)

variable (P : Platform)

def appliesTo (ident : Entry) (req : HxRequest) : Bool :=
  Identity.appliesTo P.lowering (ident.origins.map codePoints) (codePoints req.host)

/-- `issuanceHeldReason`: the halt switch first, then distress. -/
def issuanceHeldReason (s : Sender) (halted reason : HaltSwitch.Reading) : Option JString :=
  if HaltSwitch.halted P.switch s.halt halted then
    some ((HaltSwitch.reason P.switch s.halt reason).getD (js "halted, no reason recorded"))
  else s.distress.stop.map fun stop =>
    js "target distress: " ++ P.stopText stop.reason ++ js " on " ++ stop.host

/-- `header.get("deadline_us") instanceof Long`. -/
def deadlineOf (header : Header) : Option Int64 :=
  match header.get (js "deadline_us") with
  | some (.long deadlineUs) => some deadlineUs
  | _ => none

/-! ## The questions before the gate -/

/-- The request and its deadline, or what refuses it. Nothing is spent here. -/
def admitted (s : Sender) (header : Header) (body : List UInt8) (auth : Authorisation)
    (m : Moment) : Except Reply (HxRequest × Int64) :=
  match deadlineOf header with
  | none => .error (error "bad_frame" (js "send frame has no deadline_us"))
  | some deadlineUs =>
      match parse header body with
      | .error e => .error (error "bad_frame" e)
      | .ok req =>
          if deadlineUs ≤ m.before then
            .error (error "timeout" (js "deadline passed " ++ longText (m.before - deadlineUs) ++
              js "us before this frame was decided; not issued"))
          else if auth.epoch = 0 then
            .error (error "not_configured" (js "no configure frame acknowledged yet"))
          else match issuanceHeldReason P s m.halted m.reason with
            | some held => .error (error "halted" held)
            | none =>
                if !(decideBeforeGate P.cases req auth).allowed then
                  .error (denied (decideBeforeGate P.cases req auth))
                else match unmanagedCredential req with
                  | some credential =>
                      .error (error "unmanaged_credential" (js "request carries a " ++ credential ++
                        js " header this extension did not inject"))
                  | none => .ok (req, deadlineUs)

/-! ## Behind the gate -/

/-- The identity the frame names, where it may be applied to the host of the request. -/
def identityOf (s : Sender) (header : Header) (req : HxRequest) : Except Reply (Option Entry) :=
  match header.get (js "identity_id") with
  | some (.string id) =>
      if isBlank id then .ok none
      else match s.byId id with
        | none => .error (error "unknown_identity" (js "no identity registered as " ++ id))
        | some ident =>
            if !appliesTo P ident req then
              .error (error "identity_origin"
                (js "identity " ++ id ++ js " is not registered for " ++ req.host))
            else .ok (some ident)
  | _ => .ok none

/-- `distress.record`, and `announceDistress` behind it. -/
def recorded (s : Sender) (nowUs : Int64) (host : JString) (status : Int) (ms : Int64)
    (connectionError : Bool) : Sender × List Effect :=
  let distress := Distress.record P.distress s.distress nowUs host status ms connectionError
  match distress.stop with
  | none => ({ s with distress }, [])
  | some stop =>
      if s.announced then ({ s with distress }, [])
      else ({ s with distress, announced := true }, [.told stop])

/-- The call of `http.send`, and what is made of its answer. -/
def transmitted (s : Sender) (composed : Composed) (deadlineUs : Int64) (auth : Authorisation)
    (m : Moment) : Issue :=
  let issued := Effect.issued composed.req composed.wire deadlineUs
  let host := composed.req.host
  match m.answer with
  | .threw text => ⟨s, .throws text, [issued]⟩
  | .ioException simpleName message =>
      let next := recorded P s m.recorded host 0 ((m.failed - m.before) / 1000) true
      ⟨next.1, .replies (error "transport_error" (simpleName ++ js ": " ++ message)),
        issued :: next.2⟩
  | .reply status raw ms connectionError =>
      let scan := Status.scanStatus raw status
      let next := recorded P s m.recorded host scan.code ms connectionError
      let reply :=
        if connectionError then error "transport_error" (js "no response from " ++ host)
        else if deadlineUs ≤ m.after then
          error "timeout" (js "response arrived " ++ longText (m.after - deadlineUs) ++
            js "us after the deadline")
        else .result scan.code (Redact.redactResponse raw) ms
          (js (if scan.unreadable then "status_unreadable" else "ok")) auth.epoch
      ⟨next.1, .replies reply, issued :: next.2⟩

/-- `issue`, with the `RangeError` of `compose` caught. -/
def issue (s : Sender) (header : Header) (body : List UInt8) (auth : Authorisation) (m : Moment) :
    Issue :=
  match admitted P s header body auth m with
  | .error reply => ⟨s, .replies reply, []⟩
  | .ok (req, deadlineUs) =>
      let gate := s.limits.check m.gate
      let s := { s with limits := gate.2 }
      if !(checkGate (.decides gate.1)).allowed then
        ⟨s, .replies (denied (checkGate (.decides gate.1))), []⟩
      else match identityOf P s header req with
        | .error reply => ⟨s, .replies reply, []⟩
        | .ok ident =>
            match compose P.cases P.upper req ident with
            | .error e =>
                ⟨s, .replies (error "bad_frame"
                  (js "redaction range does not fit these bytes: " ++ e)), []⟩
            | .ok composed => transmitted P s composed deadlineUs auth m

/-- `IllegalArgumentException.toString`. -/
def illegalArgument (message : JString) : JString :=
  js "java.lang.IllegalArgumentException: " ++ message

/-- The send handler: the limits are armed under the snapshot before the frame is looked at. -/
def handled (s : Sender) (header : Header) (body : List UInt8) (auth : Authorisation) (m : Moment) :
    Issue :=
  match s.limits.arm P.digits auth m.armed with
  | (.error thrown, limits) => ⟨{ s with limits }, .throws (illegalArgument thrown), []⟩
  | (.ok _, limits) => issue P { s with limits } header body auth m

/-! ## What a send comes to -/

section Comes

variable {P} {s : Sender} {header : Header} {body : List UInt8} {auth : Authorisation} {m : Moment}
  {req : HxRequest} {deadlineUs : Int64}

/-- Every question before the gate was answered in favour of the request. -/
structure Admitted (P : Platform) (s : Sender) (header : Header) (body : List UInt8)
    (auth : Authorisation) (m : Moment) (req : HxRequest) (deadlineUs : Int64) : Prop where
  deadline : deadlineOf header = some deadlineUs
  parsed : parse header body = .ok req
  prompt : m.before < deadlineUs
  configured : auth.epoch ≠ 0
  running : issuanceHeldReason P s m.halted m.reason = none
  allowed : (decideBeforeGate P.cases req auth).allowed = true
  managed : unmanagedCredential req = none

theorem admitted_ok (ok : admitted P s header body auth m = .ok (req, deadlineUs)) :
    Admitted P s header body auth m req deadlineUs := by
  rw [admitted] at ok
  split at ok
  · cases ok
  next deadline =>
    split at ok
    · cases ok
    next parsed =>
      split at ok
      · cases ok
      next prompt =>
        split at ok
        · cases ok
        next configured =>
          split at ok
          · cases ok
          next running =>
            split at ok
            · cases ok
            next allowed =>
              split at ok
              · cases ok
              next managed =>
                cases ok
                exact ⟨deadline, parsed, Int64.not_le.1 prompt, configured, running,
                  by simpa using allowed, managed⟩

/-- Issuance is not held while the switch does not halt and no host is distressed. -/
theorem issuanceHeldReason_eq_none {halted reason : HaltSwitch.Reading} :
    issuanceHeldReason P s halted reason = none ↔
      HaltSwitch.halted P.switch s.halt halted = false ∧ s.distress.stop = none := by
  rw [issuanceHeldReason]
  split
  next holds => simp [holds]
  next free => simp [free]

/-- The entry a request is issued under is the one its frame names, and it applies to the host. -/
theorem identityOf_ok {ident : Entry} (ok : identityOf P s header req = .ok (some ident)) :
    ∃ id, header.get (js "identity_id") = some (.string id) ∧ s.byId id = some ident ∧
      appliesTo P ident req = true := by
  rw [identityOf] at ok
  split at ok
  next id named =>
    split at ok
    · cases ok
    · split at ok
      · cases ok
      next held found =>
        split at ok
        · cases ok
        next applies =>
          cases ok
          exact ⟨id, named, found, by simpa using applies⟩
  · cases ok

/-- A send is refused before the gate, or behind a gate that was asked once, or transmitted. -/
theorem issue_cases (P : Platform) (s : Sender) (header : Header) (body : List UInt8)
    (auth : Authorisation) (m : Moment) :
    (∃ reply, issue P s header body auth m = ⟨s, .replies reply, []⟩) ∨
    (∃ reply, issue P s header body auth m =
      ⟨{ s with limits := (s.limits.check m.gate).2 }, .replies reply, []⟩) ∨
    ∃ req deadlineUs ident composed, Admitted P s header body auth m req deadlineUs ∧
      (s.limits.check m.gate).1.allowed = true ∧ identityOf P s header req = .ok ident ∧
      compose P.cases P.upper req ident = .ok composed ∧
      issue P s header body auth m = transmitted P
        { s with limits := (s.limits.check m.gate).2 } composed deadlineUs auth m := by
  rw [issue]
  cases first : admitted P s header body auth m with
  | error reply => exact .inl ⟨reply, rfl⟩
  | ok pair =>
      obtain ⟨req, deadlineUs⟩ := pair
      right
      dsimp only
      split
      · exact .inl ⟨_, rfl⟩
      next allowed =>
        have same : identityOf P { s with limits := (s.limits.check m.gate).2 } header req =
          identityOf P s header req := rfl
        rw [same]
        cases named : identityOf P s header req with
        | error reply => exact .inl ⟨reply, rfl⟩
        | ok ident =>
            dsimp only
            cases written : compose P.cases P.upper req ident with
            | error e => exact .inl ⟨_, rfl⟩
            | ok composed =>
                exact .inr ⟨req, deadlineUs, ident, composed, admitted_ok first,
                  by simpa [checkGate] using allowed, named, written, rfl⟩

/-- A stop was announced, and only a stop was. -/
def Announces (s : Sender) : Prop := s.announced = s.distress.stop.isSome

theorem recorded_of_stopped {stop : Stop} (stopped : s.distress.stop = some stop)
    (announces : s.Announces) (nowUs : Int64) (host : JString) (status : Int) (ms : Int64)
    (connectionError : Bool) : recorded P s nowUs host status ms connectionError = (s, []) := by
  have still : Distress.record P.distress s.distress nowUs host status ms connectionError =
      s.distress := Distress.record_of_stopped (by rw [stopped]; rfl)
  have told : s.announced = true := by rw [announces, stopped]; rfl
  rw [recorded]
  simp only [still, stopped]
  exact if_pos told

/-- Recording a sample announces a stop exactly where it makes one. -/
theorem recorded_cases (announces : s.Announces) (nowUs : Int64) (host : JString) (status : Int)
    (ms : Int64) (connectionError : Bool) :
    ∃ distress : Distress,
      (distress.stop = s.distress.stop ∧ recorded P s nowUs host status ms connectionError =
        ({ s with distress }, [])) ∨
      ∃ stop, s.distress.stop = none ∧ distress.stop = some stop ∧
        recorded P s nowUs host status ms connectionError =
          ({ s with distress, announced := true }, [.told stop]) := by
  refine ⟨Distress.record P.distress s.distress nowUs host status ms connectionError, ?_⟩
  cases before : s.distress.stop with
  | some stop =>
      have still : Distress.record P.distress s.distress nowUs host status ms connectionError =
          s.distress := Distress.record_of_stopped (by rw [before]; rfl)
      rw [still]
      exact .inl ⟨before, recorded_of_stopped before announces ..⟩
  | none =>
      have silent : s.announced = false := by rw [announces, before]; rfl
      rw [recorded]
      cases after : (Distress.record P.distress s.distress nowUs host status ms
        connectionError).stop with
      | none => exact .inl ⟨rfl, by simp only⟩
      | some stop => exact .inr ⟨stop, rfl, rfl, by simp [silent]⟩

/-- One request is issued, and behind it at most one stop is told. -/
theorem transmitted_cases (announces : s.Announces) (composed : Composed) (deadlineUs : Int64)
    (auth : Authorisation) (m : Moment) :
    ∃ (distress : Distress) (outcome : Outcome),
      (distress.stop = s.distress.stop ∧ transmitted P s composed deadlineUs auth m =
        ⟨{ s with distress }, outcome, [.issued composed.req composed.wire deadlineUs]⟩) ∨
      ∃ stop, s.distress.stop = none ∧ distress.stop = some stop ∧
        transmitted P s composed deadlineUs auth m =
          ⟨{ s with distress, announced := true }, outcome,
            [.issued composed.req composed.wire deadlineUs, .told stop]⟩ := by
  rw [transmitted]
  cases m.answer with
  | threw text => exact ⟨s.distress, _, .inl ⟨rfl, rfl⟩⟩
  | ioException simpleName message =>
      obtain ⟨distress, ⟨same, is⟩ | ⟨stop, before, after, is⟩⟩ := recorded_cases (P := P)
        announces m.recorded composed.req.host 0 ((m.failed - m.before) / 1000) true
      · exact ⟨distress, _, .inl ⟨same, by dsimp only; rw [is]⟩⟩
      · exact ⟨distress, _, .inr ⟨stop, before, after, by dsimp only; rw [is]⟩⟩
  | reply status raw ms connectionError =>
      obtain ⟨distress, ⟨same, is⟩ | ⟨stop, before, after, is⟩⟩ := recorded_cases (P := P)
        announces m.recorded composed.req.host (Status.scanStatus raw status).code ms
        connectionError
      · exact ⟨distress, _, .inl ⟨same, by dsimp only; rw [is]⟩⟩
      · exact ⟨distress, _, .inr ⟨stop, before, after, by dsimp only; rw [is]⟩⟩

/-- The send handler lets nothing out, or one request and behind it at most one stop. -/
theorem handled_cases (P : Platform) (header : Header) (body : List UInt8) (auth : Authorisation)
    (m : Moment) (announces : s.Announces) :
    (∃ limits outcome, handled P s header body auth m = ⟨{ s with limits }, outcome, []⟩) ∨
    ∃ req deadlineUs ident composed limits distress outcome,
      Admitted P s header body auth m req deadlineUs ∧ identityOf P s header req = .ok ident ∧
      compose P.cases P.upper req ident = .ok composed ∧
      ((distress.stop = s.distress.stop ∧ handled P s header body auth m =
        ⟨{ s with limits, distress }, outcome,
          [.issued composed.req composed.wire deadlineUs]⟩) ∨
      ∃ stop, s.distress.stop = none ∧ distress.stop = some stop ∧
        handled P s header body auth m =
          ⟨{ s with limits, distress, announced := true }, outcome,
            [.issued composed.req composed.wire deadlineUs, .told stop]⟩) := by
  rw [handled]
  obtain ⟨answer, limits⟩ := s.limits.arm P.digits auth m.armed
  cases answer with
  | error thrown => exact .inl ⟨limits, _, rfl⟩
  | ok _ =>
      rcases issue_cases P { s with limits } header body auth m with
        ⟨reply, is⟩ | ⟨reply, is⟩ | ⟨req, deadlineUs, ident, composed, met, -, named, written, is⟩
      · exact .inl ⟨limits, _, is⟩
      · exact .inl ⟨_, _, is⟩
      · right
        have met : Admitted P s header body auth m req deadlineUs :=
          ⟨met.deadline, met.parsed, met.prompt, met.configured, met.running, met.allowed,
            met.managed⟩
        have announces : Announces { s with limits := (limits.check m.gate).2 } := announces
        obtain ⟨distress, outcome, sent⟩ :=
          transmitted_cases (P := P) announces composed deadlineUs auth m
        exact ⟨req, deadlineUs, ident, composed, _, distress, outcome, met, named, written,
          is ▸ sent⟩

/-- What a send leaves as it was, and that the stop there is afterwards is the one that was told. -/
theorem handled_keeps (P : Platform) (header : Header) (body : List UInt8) (auth : Authorisation)
    (m : Moment) (announces : s.Announces) :
    (handled P s header body auth m).sender.halt = s.halt ∧
      (handled P s header body auth m).sender.byId = s.byId ∧
      (handled P s header body auth m).sender.Announces ∧
      (handled P s header body auth m).sender.distress.stop.toList =
        told (handled P s header body auth m).effects ++ s.distress.stop.toList := by
  rcases handled_cases P header body auth m announces with ⟨limits, outcome, is⟩ |
    ⟨req, deadlineUs, ident, composed, limits, distress, outcome, -, -, -,
      ⟨same, is⟩ | ⟨stop, before, after, is⟩⟩
  · rw [is]
    exact ⟨rfl, rfl, announces, rfl⟩
  · rw [is]
    refine ⟨rfl, rfl, ?_, congrArg Option.toList same⟩
    rw [Announces, same]
    exact announces
  · rw [is]
    refine ⟨rfl, rfl, ?_, ?_⟩
    · rw [Announces, after]
      rfl
    · rw [after, before]
      rfl

end Comes

end Sender

end Hx.Send
