import Hx.Bridge.Client
import Hx.Java.Utf16
import Hx.Proxy.Gate
import Hx.Send.Sender

/-!
# The extension, one event after another

`HxExtension` wires one client, one sender and one proxy gate to the same policy, the same limits
and the same halt switch. Here each frame is handled as a whole and so is each proxied request;
between two of them the sentinel is polled and the connection comes and goes. A poll is its
publication, so one that was looked up long ago may come at any time.

`IdentityBody.parse` is a parameter: its answer is the arguments of `register`, or the text it
refuses the body with.
-/

namespace Hx.Wiring

open Hx.Java Hx.Library Hx.Bridge Hx.Policy Hx.Send Hx.Proxy

/-- What the extension is started with. -/
structure Setup where
  platform : Platform
  engagementId : JString
  malformed : List UInt8 → JString
  identityBody : List UInt8 → Except JString RegisterCall

/-- `BridgeClient`, with whether its read loop runs, and the parts it was given. -/
structure Extension where
  closed : Bool
  reading : Bool
  configured : Bool
  halted : Bool
  haltReason : Option JString
  committed : Authorisation
  epochCounter : Nat
  sender : Sender

/-- What the peer sees of a frame, and whether what is written to it arrives: the halted frame
that a send may push, and the answer. -/
structure Wire where
  told : Bool
  answered : Bool

structure Handled where
  extension : Extension
  answer : Option Header
  effects : List Effect

namespace Extension

/-- `denyAll`. -/
def denyAll (m : Extension) : Extension :=
  { m with configured := false, committed := Bridge.denied }

/-- The way out of the read loop. -/
def leave (m : Extension) : Extension := { m.denyAll with reading := false }

/-- `error(f, cls, detail)`, as a header. -/
def errorTo (f : Frame) (errorClass : String) (detail : JString) : Header :=
  (Sender.error errorClass detail).header (f.header.get (js "id"))

/-- An answer that does not arrive ends the loop. -/
def answering (m : Extension) (wire : Wire) (answer : Header) (effects : List Effect) : Handled :=
  ⟨if wire.answered then m else m.leave, some answer, effects⟩

variable (E : Setup)

/-- `ConfigBody.parse`. -/
def configOf (f : Frame) : Except JString Scope :=
  ConfigBody.parse E.platform.digits (newString E.malformed f.body)

/-- The arm of a configure of this engagement: parsed, guarded, committed. -/
def configure (m : Extension) (f : Frame) (wire : Wire) : Handled :=
  match configOf E f with
  | .error message => answering m.denyAll wire (errorTo f "bad_config" message) []
  | .ok scope =>
      match m.sender.limits.refuseIfLimitsMoved E.platform.digits scope with
      | some unusable => answering m.denyAll wire (errorTo f "bad_config" unusable) []
      | none =>
          let epoch := m.epochCounter + 1
          answering
            { m with epochCounter := epoch, committed := ⟨epoch, scope⟩, configured := true }
            wire
            [(js "v", .long protocolVersion), (js "t", .string (js "configured")),
              (js "id", (f.header.get (js "id")).getD .null),
              (js "config_epoch", .long (Int64.ofNat epoch))] []

/-- The arm of a send: one read of the authorisation, and the send handler. A halted frame that
cannot be delivered denies all before the answer is written. -/
def send (m : Extension) (f : Frame) (moment : Moment) (wire : Wire) : Handled :=
  let issue := m.sender.handled E.platform f.header f.body m.committed moment
  let m := { m with sender := issue.sender }
  let m := if issue.effects.any Effect.isTold && !wire.told then m.denyAll else m
  match issue.outcome with
  | .throws text =>
      ⟨m.leave, some (errorTo f "not_configured" (extensionFault ++ js "the send path threw: " ++
        text)), issue.effects⟩
  | .replies reply => answering m wire (reply.header (f.header.get (js "id"))) issue.effects

/-- `IdentityRegistry.register`. -/
def register (s : Sender) (call : RegisterCall) : Except Refusal Sender :=
  match checkRegistration call with
  | .error why => .error why
  | .ok entry =>
      match remap entry (s.byId entry.id) with
      | .error why => .error why
      | .ok next => .ok { s with byId := Function.update s.byId entry.id (some next) }

/-- The arm of an identity of this engagement. A null among the origins is no argument of
`register` that a body can name. -/
def identity (m : Extension) (f : Frame) (moment : Moment) (wire : Wire) : Handled :=
  if !m.configured then
    answering m wire (errorTo f "not_configured" (js "no configure frame acknowledged yet")) []
  else
    let stopped := if m.halted then
        some (js "halt frame: " ++ m.haltReason.getD (js "no reason given"))
      else m.sender.issuanceHeldReason E.platform moment.halted moment.reason
    match stopped with
    | some stopped => answering m wire (errorTo f "halted" stopped) []
    | none =>
        match E.identityBody f.body with
        | .error message => answering m wire (errorTo f "bad_identity" message) []
        | .ok call =>
            match register m.sender call with
            | .error (.staleGeneration text) =>
                answering m wire (errorTo f "stale_generation" text) []
            | .error (.illegalArgument text) => answering m wire (errorTo f "bad_identity" text) []
            | .error .nullPointer => ⟨m.leave, none, []⟩
            | .ok sender =>
                answering { m with sender } wire
                  [(js "v", .long protocolVersion), (js "t", .string (js "identity_registered")),
                    (js "id", (f.header.get (js "id")).getD .null),
                    (js "identity_id", (call.id.elim .null .string)),
                    (js "generation", .long call.generation.toInt64)] []

/-- `handle`, and the way out of the read loop where it answers false or throws. -/
def handle (m : Extension) (f : Frame) (moment : Moment) (wire : Wire) : Handled :=
  if m.closed then ⟨m.leave, none, []⟩
  else match arm E.engagementId f with
    | .protocolMismatch =>
        ⟨m.leave, some (errorTo f "protocol_mismatch" (js "expected v=1 got " ++
          valueOf (f.header.get (js "v")))), []⟩
    | .badFrame =>
        answering m wire (errorTo f "bad_frame" (js "request frame has no deadline_us")) []
    | .engagementMismatch =>
        answering m wire (errorTo f "engagement_mismatch" (f.kind ++ js " names engagement " ++
          valueOf (f.header.get (js "engagement_id")) ++ js " but this extension serves " ++
          E.engagementId)) []
    | .configure => configure E m f wire
    | .send => send E m f moment wire
    | .identity => identity E m f moment wire
    | .halt why =>
        ⟨{ m with
            sender := { m.sender with halt := HaltSwitch.haltedByFrame why m.sender.halt }
            halted := true
            haltReason := why }, none, []⟩
    | .resume =>
        ⟨{ m with
            halted := false
            sender := { m.sender with halt := HaltSwitch.resumedByFrame m.sender.halt } },
          none, []⟩
    | .unknown =>
        answering m wire (errorTo f "unknown_frame" (js "unrecognised frame type " ++ f.kind)) []

/-! ## Events -/

/-- A frame and a proxied request are labelled with what came of them. -/
inductive Event where
  | connected
  | frame (f : Frame) (moment : Moment) (effects : List Effect)
  | disconnected
  | closed
  | switchStarted (look : HaltSwitch.Look) (clock : HaltSwitch.Reading)
  | polled (look : HaltSwitch.Look) (clock : HaltSwitch.Reading)
  | switchStopped
  | proxied (source : Source) (req : HxRequest) (verdict : Verdict)

inductive Step : Extension → Event → Extension → Prop where
  | connected {m : Extension} : m.closed = false → m.reading = false →
      Step m .connected { m with reading := true }
  | frame {m : Extension} (f : Frame) (moment : Moment) (wire : Wire) : m.reading = true →
      Step m (.frame f moment (handle E m f moment wire).effects)
        (handle E m f moment wire).extension
  | disconnected {m : Extension} : m.reading = true → Step m .disconnected m.leave
  | closed {m : Extension} : Step m .closed { m.denyAll with closed := true }
  | switchStarted {m : Extension} (look : HaltSwitch.Look) (clock : HaltSwitch.Reading) :
      Step m (.switchStarted look clock) { m with sender := { m.sender with
        halt := HaltSwitch.start E.platform.switch look clock m.sender.halt } }
  | polled {m : Extension} (look : HaltSwitch.Look) (clock : HaltSwitch.Reading) :
      Step m (.polled look clock) { m with sender := { m.sender with
        halt := HaltSwitch.pollNow E.platform.switch look clock m.sender.halt } }
  | switchStopped {m : Extension} :
      Step m .switchStopped { m with sender := { m.sender with
        halt := HaltSwitch.stop m.sender.halt } }
  | proxied {m : Extension} (source : Source) (req : HxRequest) (armed now : Int64) :
      Step m
        (.proxied source req (ProxyGate.received E.platform.cases E.platform.digits
          m.sender.limits armed now req m.committed source).1)
        { m with sender := { m.sender with
          limits := (ProxyGate.received E.platform.cases E.platform.digits m.sender.limits armed
            now req m.committed source).2 } }

/-- What the constructors leave. -/
def new : Extension where
  closed := false
  reading := false
  configured := false
  halted := false
  haltReason := none
  committed := Bridge.denied
  epochCounter := 0
  sender := ⟨Limits.deployed, HaltSwitch.State.initial, {}, false, fun _ => none⟩

def system : System Extension Event where
  init m := m = new
  step := Step E

end Extension

end Hx.Wiring
