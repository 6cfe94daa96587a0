import Hx.Identity.Bound
import Hx.Policy.Window
import Hx.Send.Spelled
import Hx.Wiring.Extension

/-!
# What the extension lets out

Over every sequence of frames, polls, proxied requests and connections: what is sent was asked for
by one send frame, under the scope of the last configure of its connection, while no halt frame,
no sentinel and no distressed host held the run. The records of a history say what the state of
the extension has of its past.
-/

namespace Hx.Wiring

open Hx.Java Hx.Library Hx.Bridge Hx.Policy Hx.Send Hx.Proxy

namespace Extension

variable (E : Setup)

/-! ## What a history says -/

/-- The last configure frame of this engagement since the connection began. -/
def lastConfigure : List Event → Option Frame
  | [] => none
  | .frame f _ _ :: past =>
      if arm E.engagementId f = .configure then some f else lastConfigure past
  | .disconnected :: _ => none
  | .closed :: _ => none
  | _ :: past => lastConfigure past

/-- Whether a frame with this arm leaves the run halted. -/
def switched (before : Bool) : Arm → Bool
  | .halt _ => true
  | .resume => false
  | _ => before

/-- The last halt or resume frame was a halt. -/
def frameHalts : List Event → Bool
  | [] => false
  | .frame f _ _ :: past => switched (frameHalts past) (arm E.engagementId f)
  | _ :: past => frameHalts past

/-- The last look at the sentinel that was published, and the clock that stamps it. -/
def lastPoll : List Event → Option (HaltSwitch.Look × HaltSwitch.Reading)
  | [] => none
  | .switchStarted look clock :: _ => some (look, clock)
  | .polled look clock :: _ => some (look, clock)
  | _ :: past => lastPoll past

/-- The sentinel holds the run, as of the last look. -/
def sentinelHalts (past : List Event) : Bool :=
  (lastPoll past).any fun p => (HaltSwitch.pollOnce E.platform.switch p.1).isSome || !p.2.isOk

def Event.effects : Event → List Effect
  | .frame _ _ effects => effects
  | _ => []

/-- The stops that were told. -/
def stops (past : List Event) : List Stop := past.flatMap fun e => told e.effects

/-- A frame of the history registered the entry. -/
def Registered (past : List Event) (entry : Send.Entry) : Prop :=
  ∃ f moment effects call, .frame f moment effects ∈ past ∧
    arm E.engagementId f = .identity ∧ E.identityBody f.body = .ok call ∧
    checkRegistration call = .ok entry

/-! ## What handling a frame can do -/

section Handling

variable {E} {m : Extension} {f : Frame} {moment : Moment} {wire : Wire}

/-- What a frame other than a send does to the extension. -/
structure Quiet (E : Setup) (m : Extension) (f : Frame) (n : Extension) : Prop where
  limits : n.sender.limits = m.sender.limits
  distress : n.sender.distress = m.sender.distress
  announced : n.sender.announced = m.sender.announced
  committed : n.committed = m.committed ∧ arm E.engagementId f ≠ .configure ∨
    n.committed = Bridge.denied ∨
    ∃ scope, arm E.engagementId f = .configure ∧ configOf E f = .ok scope ∧
      n.committed.scope = scope
  closed : n.closed = m.closed
  frame : m.closed = false →
    n.sender.halt.frameHalted = switched m.sender.halt.frameHalted (arm E.engagementId f)
  sentinel : n.sender.halt.sentinelHalted = m.sender.halt.sentinelHalted
  byId : ∀ id entry, n.sender.byId id = some entry → m.sender.byId id = some entry ∨
    arm E.engagementId f = .identity ∧ ∃ call, E.identityBody f.body = .ok call ∧
      checkRegistration call = .ok entry

theorem Quiet.leave {n : Extension} (quiet : Quiet E m f n) : Quiet E m f n.leave :=
  ⟨quiet.limits, quiet.distress, quiet.announced, .inr (.inl rfl), quiet.closed, quiet.frame,
    quiet.sentinel, quiet.byId⟩

theorem Quiet.answering {n : Extension} (quiet : Quiet E m f n) (answer : Header) :
    Quiet E m f (answering n wire answer []).extension := by
  rw [Extension.answering]
  cases wire.answered with
  | true => exact quiet
  | false => exact quiet.leave

/-- A frame that is only answered. -/
theorem Quiet.refl (still : ∀ b, switched b (arm E.engagementId f) = b)
    (other : arm E.engagementId f ≠ .configure) : Quiet E m f m where
  limits := rfl
  distress := rfl
  announced := rfl
  committed := .inl ⟨rfl, other⟩
  closed := rfl
  frame _ := (still _).symm
  sentinel := rfl
  byId _ _ found := .inl found

theorem quiet_configure (kind : arm E.engagementId f = .configure) :
    Quiet E m f (configure E m f wire).extension ∧ (configure E m f wire).effects = [] := by
  have frame (_ : m.closed = false) : m.sender.halt.frameHalted =
      switched m.sender.halt.frameHalted (arm E.engagementId f) := by
    rw [kind]
    rfl
  have refused : Quiet E m f m.denyAll :=
    ⟨rfl, rfl, rfl, .inr (.inl rfl), rfl, frame, rfl, fun _ _ found => .inl found⟩
  rw [configure]
  cases read : configOf E f with
  | error message => exact ⟨refused.answering _, rfl⟩
  | ok scope =>
      dsimp only
      cases m.sender.limits.refuseIfLimitsMoved E.platform.digits scope with
      | some unusable => exact ⟨refused.answering _, rfl⟩
      | none =>
          refine ⟨Quiet.answering ?_ _, rfl⟩
          exact ⟨rfl, rfl, rfl, .inr (.inr ⟨scope, kind, read, rfl⟩), rfl, frame, rfl,
            fun _ _ found => .inl found⟩

theorem register_ok {s t : Sender} {call : RegisterCall} (ok : register s call = .ok t) :
    ∃ entry next, checkRegistration call = .ok entry ∧
      remap entry (s.byId entry.id) = .ok next ∧
      t = { s with byId := Function.update s.byId entry.id (some next) } := by
  rw [register] at ok
  cases checked : checkRegistration call with
  | error why =>
      rw [checked] at ok
      cases ok
  | ok entry =>
      rw [checked] at ok
      dsimp only at ok
      cases mapped : remap entry (s.byId entry.id) with
      | error why =>
          rw [mapped] at ok
          cases ok
      | ok next =>
          rw [mapped] at ok
          cases ok
          exact ⟨entry, next, rfl, mapped, rfl⟩

theorem quiet_identity (kind : arm E.engagementId f = .identity) :
    Quiet E m f (identity E m f moment wire).extension ∧
      (identity E m f moment wire).effects = [] := by
  have still : Quiet E m f m := Quiet.refl (fun b => by rw [kind]; rfl) (by simp [kind])
  rw [identity]
  split
  · exact ⟨still.answering _, rfl⟩
  · dsimp only
    split
    · exact ⟨still.answering _, rfl⟩
    · split
      · exact ⟨still.answering _, rfl⟩
      next call read =>
        split
        · exact ⟨still.answering _, rfl⟩
        · exact ⟨still.answering _, rfl⟩
        · exact ⟨still.leave, rfl⟩
        next sender registered =>
          obtain ⟨entry, next, checked, mapped, rfl⟩ := register_ok registered
          refine ⟨Quiet.answering ?_ _, rfl⟩
          refine ⟨rfl, rfl, rfl, .inl ⟨rfl, by simp [kind]⟩, rfl, still.frame, rfl, ?_⟩
          intro id held found
          have after : Function.update m.sender.byId entry.id (some next) id = some held := found
          rw [Function.update_apply] at after
          split at after
          next same =>
            rcases remap_ok mapped with ⟨-, rfl⟩ | ⟨before, was, ⟨-, rfl⟩ | ⟨-, rfl⟩⟩
            · cases after
              exact .inr ⟨kind, call, read, checked⟩
            · cases after
              exact .inr ⟨kind, call, read, checked⟩
            · cases after
              exact .inl (same ▸ was)
          next => exact .inl after

/-- A frame is a send that the extension is open for, or it is quiet. -/
theorem handle_cases (m : Extension) (f : Frame) (moment : Moment) (wire : Wire) :
    (m.closed = false ∧ arm E.engagementId f = .send ∧
      handle E m f moment wire = send E m f moment wire) ∨
    (Quiet E m f (handle E m f moment wire).extension ∧
      (handle E m f moment wire).effects = []) := by
  rw [handle]
  cases open_ : m.closed with
  | true =>
      right
      have gone : Quiet E m f m.leave :=
        ⟨rfl, rfl, rfl, .inr (.inl rfl), rfl,
          fun free => absurd (open_.symm.trans free) Bool.noConfusion, rfl,
          fun _ _ found => .inl found⟩
      exact ⟨gone, rfl⟩
  | false =>
      rw [if_neg Bool.false_ne_true]
      cases kind : arm E.engagementId f with
      | send => exact .inl ⟨rfl, rfl, rfl⟩
      | configure => exact .inr (quiet_configure kind)
      | identity => exact .inr (quiet_identity kind)
      | protocolMismatch =>
          exact .inr ⟨(Quiet.refl (fun b => by rw [kind]; rfl) (by simp [kind])).leave, rfl⟩
      | badFrame =>
          exact .inr ⟨(Quiet.refl (fun b => by rw [kind]; rfl) (by simp [kind])).answering _,
            rfl⟩
      | engagementMismatch =>
          exact .inr ⟨(Quiet.refl (fun b => by rw [kind]; rfl) (by simp [kind])).answering _,
            rfl⟩
      | unknown =>
          exact .inr ⟨(Quiet.refl (fun b => by rw [kind]; rfl) (by simp [kind])).answering _,
            rfl⟩
      | halt why =>
          refine .inr ⟨⟨rfl, rfl, rfl, .inl ⟨rfl, by simp [kind]⟩, open_.symm, fun _ => ?_, rfl,
            fun _ _ found => .inl found⟩, rfl⟩
          rw [kind]
          rfl
      | resume =>
          refine .inr ⟨⟨rfl, rfl, rfl, .inl ⟨rfl, by simp [kind]⟩, open_.symm, fun _ => ?_, rfl,
            fun _ _ found => .inl found⟩, rfl⟩
          rw [kind]
          rfl

/-- What a send does is what the send handler does, and it may deny all. -/
theorem send_cases (m : Extension) (f : Frame) (moment : Moment) (wire : Wire) :
    (send E m f moment wire).effects =
        (m.sender.handled E.platform f.header f.body m.committed moment).effects ∧
      (send E m f moment wire).extension.sender =
        (m.sender.handled E.platform f.header f.body m.committed moment).sender ∧
      (send E m f moment wire).extension.closed = m.closed ∧
      ((send E m f moment wire).extension.committed = m.committed ∨
        (send E m f moment wire).extension.committed = Bridge.denied) := by
  rw [send]
  split
  · refine ⟨rfl, ?_, ?_, .inr rfl⟩
    · split <;> rfl
    · split <;> rfl
  · rw [answering]
    split
    · refine ⟨rfl, ?_, ?_, ?_⟩
      · split <;> rfl
      · split <;> rfl
      · split
        · exact .inr rfl
        · exact .inl rfl
    · refine ⟨rfl, ?_, ?_, .inr rfl⟩
      · split <;> rfl
      · split <;> rfl

end Handling

/-! ## The records of a history -/

/-- What the state of the extension has of its past. -/
structure Records (E : Setup) (past : List Event) (m : Extension) : Prop where
  authorised : m.committed = Bridge.denied ∨ ∃ f scope, lastConfigure E past = some f ∧
    configOf E f = .ok scope ∧ m.committed.scope = scope
  frame : m.closed = false → m.sender.halt.frameHalted = frameHalts E past
  sentinel : m.sender.halt.sentinelHalted = sentinelHalts E past
  announces : m.sender.Announces
  stops : m.sender.distress.stop.toList = stops past
  registered : ∀ id entry, m.sender.byId id = some entry → Registered E past entry

section Records

variable {E} {past : List Event} {m n : Extension} {e : Event}

theorem Registered.cons {entry : Send.Entry} (registered : Registered E past entry) (e : Event) :
    Registered E (e :: past) entry := by
  obtain ⟨f, moment, effects, call, mem, is⟩ := registered
  exact ⟨f, moment, effects, call, List.mem_cons_of_mem _ mem, is⟩

theorem sentinelHalted_pollNow (sw : HaltSwitch) (look : HaltSwitch.Look)
    (clock : HaltSwitch.Reading) (s : HaltSwitch.State) :
    (HaltSwitch.pollNow sw look clock s).sentinelHalted =
      ((HaltSwitch.pollOnce sw look).isSome || !clock.isOk) := by
  cases clock with
  | ok now => exact (Bool.or_false _).symm
  | error t => exact (Bool.or_true _).symm

theorem frameHalted_pollNow (sw : HaltSwitch) (look : HaltSwitch.Look)
    (clock : HaltSwitch.Reading) (s : HaltSwitch.State) :
    (HaltSwitch.pollNow sw look clock s).frameHalted = s.frameHalted := by
  cases clock <;> rfl

theorem records_new : Records E [] new where
  authorised := .inl rfl
  frame _ := rfl
  sentinel := rfl
  announces := rfl
  stops := rfl
  registered _ _ found := by cases found

theorem Records.send (records : Records E past m) {f : Frame} {moment : Moment} {wire : Wire}
    (open_ : m.closed = false) (kind : arm E.engagementId f = .send) :
    Records E (.frame f moment (send E m f moment wire).effects :: past)
      (send E m f moment wire).extension := by
  obtain ⟨effects, sender, closed, committed⟩ := send_cases (E := E) m f moment wire
  have other :
      lastConfigure E (.frame f moment (Extension.send E m f moment wire).effects :: past) =
        lastConfigure E past := if_neg (by simp [kind])
  have frame : frameHalts E (.frame f moment (Extension.send E m f moment wire).effects :: past) =
      frameHalts E past := by
    rw [frameHalts, kind]
    rfl
  have authorised : (Extension.send E m f moment wire).extension.committed = Bridge.denied ∨
      ∃ c scope, lastConfigure E past = some c ∧ configOf E c = .ok scope ∧
        (Extension.send E m f moment wire).extension.committed.scope = scope := by
    rcases committed with same | none_
    · rw [same]
      exact records.authorised
    · exact .inl none_
  obtain ⟨halt, byId, announces, stops⟩ :=
    Sender.handled_keeps E.platform f.header f.body m.committed moment records.announces
  refine ⟨other ▸ authorised, fun _ => ?_, ?_, ?_, ?_, fun id entry found => ?_⟩
  · rw [sender, halt, frame]
    exact records.frame open_
  · rw [sender, halt]
    exact records.sentinel
  · rw [sender]
    exact announces
  · rw [sender, stops, effects, records.stops]
    rfl
  · rw [sender, byId] at found
    exact (records.registered id entry found).cons _

theorem Records.quiet (records : Records E past m) {f : Frame} {moment : Moment}
    (quiet : Quiet E m f n) : Records E (.frame f moment [] :: past) n where
  authorised := by
    rcases quiet.committed with ⟨same, other⟩ | none_ | ⟨scope, kind, read, is⟩
    · rw [same, lastConfigure, if_neg other]
      exact records.authorised
    · exact .inl none_
    · exact .inr ⟨f, scope, if_pos kind, read, is⟩
  frame open_ := by
    have before := quiet.closed ▸ open_
    rw [quiet.frame before, records.frame before]
    rfl
  sentinel := quiet.sentinel.trans records.sentinel
  announces := by
    rw [Sender.Announces, quiet.announced, quiet.distress]
    exact records.announces
  stops := by
    rw [quiet.distress]
    exact records.stops
  registered id entry found := by
    rcases quiet.byId id entry found with before | ⟨kind, call, read, checked⟩
    · exact (records.registered id entry before).cons _
    · exact ⟨f, moment, [], call, List.mem_cons_self, kind, read, checked⟩

theorem Records.step (records : Records E past m) (st : Step E m e n) :
    Records E (e :: past) n := by
  have registered : ∀ id entry, m.sender.byId id = some entry → Registered E (e :: past) entry :=
    fun id entry found => (records.registered id entry found).cons e
  cases st with
  | connected open_ idle =>
      exact ⟨records.authorised, records.frame, records.sentinel, records.announces, records.stops,
        registered⟩
  | frame f moment wire reading =>
      rcases handle_cases (E := E) m f moment wire with ⟨open_, kind, is⟩ | ⟨quiet, silent⟩
      · rw [is]
        exact records.send open_ kind
      · rw [silent]
        exact records.quiet quiet
  | disconnected reading =>
      exact ⟨.inl rfl, records.frame, records.sentinel, records.announces, records.stops,
        registered⟩
  | closed =>
      exact ⟨.inl rfl, fun open_ => Bool.noConfusion open_, records.sentinel, records.announces,
        records.stops, registered⟩
  | switchStarted look clock =>
      exact ⟨records.authorised,
        fun open_ => (frameHalted_pollNow ..).trans (records.frame open_),
        sentinelHalted_pollNow .., records.announces, records.stops, registered⟩
  | polled look clock =>
      exact ⟨records.authorised,
        fun open_ => (frameHalted_pollNow ..).trans (records.frame open_),
        sentinelHalted_pollNow .., records.announces, records.stops, registered⟩
  | switchStopped =>
      exact ⟨records.authorised, records.frame, records.sentinel, records.announces, records.stops,
        registered⟩
  | proxied source req armed now =>
      exact ⟨records.authorised, records.frame, records.sentinel, records.announces, records.stops,
        registered⟩

theorem records (run : (system E).History past m) : Records E past m :=
  run.invariant (fun _ start => start ▸ records_new) fun _ _ _ _ _ ih st => ih.step st

end Records

/-! ## What is issued -/

/-- What the wire carries is the request that was asked for, with the credential in front of its
header lines if the frame named an identity: one that was registered and applies to the host. -/
def Carries (E : Setup) (past : List Event) (asked req : HxRequest) (wire : List UInt8) : Prop :=
  ∃ ident injected, compose E.platform.cases E.platform.upper asked ident =
      .ok ⟨req, wire, injected⟩ ∧
    ∀ entry, ident = some entry → Registered E past entry ∧
      Sender.appliesTo E.platform entry asked = true

/-- What a request that is handed to `Http` has to show for it. -/
structure License (E : Setup) (past : List Event) (m : Extension) (f : Frame) (moment : Moment)
    (effects : List Effect) (req : HxRequest) (wire : List UInt8) (deadlineUs : Int64) : Prop where
  asked : arm E.engagementId f = .send
  alone : effects.filter Effect.isIssued = [.issued req wire deadlineUs]
  prompt : Sender.deadlineOf f.header = some deadlineUs ∧ moment.before < deadlineUs
  resumed : frameHalts E past = false
  clear : sentinelHalts E past = false
  fresh : HaltSwitch.stale E.platform.switch m.sender.halt moment.halted = false
  calm : stops past = []
  authorised : ∃ c scope epoch asked, lastConfigure E past = some c ∧ configOf E c = .ok scope ∧
    epoch ≠ 0 ∧ parse f.header f.body = .ok asked ∧
    (decideBeforeGate E.platform.cases asked ⟨epoch, scope⟩).allowed = true ∧
    Sender.unmanagedCredential asked = none ∧ Carries E past asked req wire

section Issued

variable {E} {past : List Event} {m n : Extension} {f : Frame} {moment : Moment}
  {effects : List Effect} {req : HxRequest} {wire : List UInt8} {deadlineUs : Int64}

/-- What a send that goes out was admitted with. -/
theorem admitted_of_issued (announces : m.sender.Announces)
    (out : .issued req wire deadlineUs ∈
      (m.sender.handled E.platform f.header f.body m.committed moment).effects) :
    ∃ asked ident composed, Sender.Admitted E.platform m.sender f.header f.body m.committed moment
        asked deadlineUs ∧
      Sender.identityOf E.platform m.sender f.header asked = .ok ident ∧
      compose E.platform.cases E.platform.upper asked ident = .ok composed ∧
      req = composed.req ∧ wire = composed.wire ∧
      (m.sender.handled E.platform f.header f.body m.committed moment).effects.filter
        Effect.isIssued = [.issued req wire deadlineUs] := by
  rcases Sender.handled_cases E.platform f.header f.body m.committed moment announces with
    ⟨limits, outcome, is⟩ |
      ⟨asked, d, ident, composed, limits, distress, outcome, met, named, written,
        ⟨same, is⟩ | ⟨stop, before, after, is⟩⟩
  · rw [is] at out
    cases out
  · rw [is] at out ⊢
    cases List.mem_singleton.1 out
    exact ⟨asked, ident, composed, met, named, written, rfl, rfl, rfl⟩
  · rw [is] at out ⊢
    rcases List.mem_cons.1 out with same | other
    · cases same
      exact ⟨asked, ident, composed, met, named, written, rfl, rfl, rfl⟩
    · cases List.mem_singleton.1 other

end Issued

/-! ## One configure and one send -/

def deployed : Setup where
  platform := ⟨basicCase, Identity.plain, basicDigits, id, deployedDistress, HaltSwitch.production,
    fun _ => []⟩
  engagementId := js "e"
  malformed _ := []
  identityBody _ := .error []

def request (kind : String) (fields : Header) (body : String) : Frame where
  header := [(js "v", .long 1), (js "t", .string (js kind)), (js "engagement_id", .string (js "e")),
    (js "deadline_us", .long 1000000)] ++ fields
  body := latin1Bytes (js body)

def firstConfigure : Frame := request "configure" [] "scope.include\thttp://h.test/*"

def firstSend : Frame :=
  request "send" [(js "target_host", .string (js "h.test"))]
    "GET /a HTTP/1.1\r\nHost: h.test\r\n\r\n"

/-- Everything happens at once, and the host answers. -/
def promptly : Moment where
  armed := 0
  before := 0
  halted := .ok 0
  reason := .ok 0
  gate := 0
  answer := .reply 200 (latin1Bytes (js "HTTP/1.1 200 OK\r\n\r\n")) 3 false
  failed := 0
  recorded := 0
  after := 1

def arrives : Wire := ⟨true, true⟩

def dialled : Extension := { new with reading := true }

def configured_ : Extension := (handle deployed dialled firstConfigure promptly arrives).extension

def firstEvents : List Event :=
  [.frame firstConfigure promptly (handle deployed dialled firstConfigure promptly arrives).effects,
    .connected]

/-- The first send is issued, under limits that hold a limiter. -/
theorem firstSend_issued : configured_.reading = true ∧
    (handle deployed configured_ firstSend promptly arrives).effects.any Effect.isIssued = true ∧
    (handle deployed configured_ firstSend promptly
      arrives).extension.sender.limits.limiter.isSome = true := by
  decide +kernel

theorem firstEvents_run : (system deployed).History firstEvents configured_ := by
  have fresh : (system deployed).History [] new := .start rfl
  have dial : (system deployed).History [.connected] dialled :=
    fresh.step (Step.connected rfl rfl)
  exact dial.step (Step.frame firstConfigure promptly arrives rfl)

end Extension

end Hx.Wiring

/-!
## What a run may spend

The send path and the crawler spend from one limiter. It is made once, by the first arm under an
authorisation, and no configure, halt, resume or reconnection makes another; so what the two let
out together stays within the budget of that one. A stop on distress is told once and nothing goes
out after it.
-/

namespace Hx.Send.Limits

open Hx.Bridge Hx.Policy

variable {D : Java.DigitMap} {l : Limits} {n : ℕ}

/-- So many requests went out on what was spent, which is within the budget. -/
structure Pays (l : Limits) (n : ℕ) : Prop where
  unarmed : l.limiter = none → n = 0
  within : ∀ limiter, l.limiter = some limiter →
    (n : Int) ≤ limiter.issued.toInt ∧ limiter.issued.toInt ≤ limiter.maxRequests.toInt

/-- A limiter that was made stays, with the numbers it was made with. -/
def Keeps (l l' : Limits) : Prop :=
  ∀ limiter, l.limiter = some limiter → ∃ limiter', l'.limiter = some limiter' ∧
    limiter.Alike limiter'

theorem Keeps.refl (l : Limits) : l.Keeps l := fun limiter found => ⟨limiter, found, .refl limiter⟩

theorem Keeps.trans {a b c : Limits} (first : a.Keeps b) (second : b.Keeps c) : a.Keeps c := by
  intro limiter found
  obtain ⟨limiter', found', alike⟩ := first limiter found
  obtain ⟨limiter'', found'', alike'⟩ := second limiter' found'
  exact ⟨limiter'', found'', alike.trans alike'⟩

theorem Keeps.check (l : Limits) (now : Int64) : l.Keeps (l.check now).2 := by
  intro limiter found
  refine ⟨(limiter.check now).2, ?_, Limiter.check_alike limiter now⟩
  rw [Limits.check, found]

theorem Keeps.arm (l : Limits) (auth : Authorisation) (now : Int64) :
    l.Keeps (l.arm D auth now).2 := by
  intro limiter found
  rcases l.arm_eq (D := D) auth now with ⟨-, same⟩ | ⟨none_, -⟩ | ⟨none_, -⟩
  · rw [same]
    exact ⟨limiter, found, .refl limiter⟩
  · rw [found] at none_
    cases none_
  · rw [found] at none_
    cases none_

/-- A limiter that is just made has spent nothing. -/
theorem Pays.arm (pays : l.Pays n) (auth : Authorisation) (now : Int64) :
    (l.arm D auth now).2.Pays n := by
  rcases l.arm_eq (D := D) auth now with
    ⟨-, same⟩ | ⟨-, ⟨thrown, same⟩, -⟩ | ⟨none_, rps, requests, burst, -, made⟩
  · rw [same]
    exact pays
  · rw [same]
    exact pays
  · have zero := pays.unarmed none_
    rcases made with ⟨thrown, -, same⟩ | ⟨limiter, made, same⟩
    · rw [same]
      exact ⟨fun _ => zero, fun limiter found => absurd (none_.symm.trans found) nofun⟩
    · rw [same]
      refine ⟨nofun, fun limiter' found => ?_⟩
      cases found
      obtain ⟨⟨-, -, nonneg, -, -⟩, rfl⟩ := Limiter.new_eq_ok_iff.1 made
      rw [zero]
      exact ⟨le_refl 0, nonneg⟩

/-- A check that allows pays for one more. -/
theorem Pays.check (pays : l.Pays n) (now : Int64) :
    (l.check now).2.Pays (n + if (l.check now).1.allowed = true then 1 else 0) := by
  cases found : l.limiter with
  | none =>
      have same : l.check now =
          (.deny (Java.js "not_configured") (Java.js "the rate and budget are not armed"), l) := by
        rw [Limits.check, found]
      rw [same]
      exact pays
  | some limiter =>
      have same : l.check now = ((limiter.check now).1,
          { l with limiter := some (limiter.check now).2 }) := by
        rw [Limits.check, found]
      obtain ⟨spent, budget⟩ := pays.within limiter found
      obtain ⟨counted, kept⟩ := Limiter.check_issued now budget
      rw [same]
      refine ⟨nofun, fun limiter' is => ?_⟩
      cases is
      refine ⟨?_, kept⟩
      rw [counted]
      split
      next => push_cast; omega
      next => push_cast; omega

theorem Pays.mono {k : ℕ} (pays : l.Pays n) (fewer : k ≤ n) : l.Pays k where
  unarmed none_ := Nat.le_zero.1 (pays.unarmed none_ ▸ fewer)
  within limiter found := by
    obtain ⟨spent, budget⟩ := pays.within limiter found
    exact ⟨by omega, budget⟩

end Hx.Send.Limits

namespace Hx.Send.Sender

open Hx.Java Hx.Bridge Hx.Policy

variable {P : Platform} {s : Sender} {header : Header} {body : List UInt8} {auth : Authorisation}
  {m : Moment} {n : ℕ}

theorem limits_recorded (s : Sender) (nowUs : Int64) (host : JString) (status : Int) (ms : Int64)
    (connectionError : Bool) :
    (recorded P s nowUs host status ms connectionError).1.limits = s.limits ∧
      (recorded P s nowUs host status ms connectionError).2.countP Effect.isIssued = 0 := by
  rw [recorded]
  split
  · exact ⟨rfl, rfl⟩
  · split
    · exact ⟨rfl, rfl⟩
    · exact ⟨rfl, rfl⟩

theorem limits_transmitted (s : Sender) (composed : Composed) (deadlineUs : Int64)
    (auth : Authorisation) (m : Moment) :
    (transmitted P s composed deadlineUs auth m).sender.limits = s.limits ∧
      (transmitted P s composed deadlineUs auth m).effects.countP Effect.isIssued = 1 := by
  rw [transmitted]
  split
  · exact ⟨rfl, rfl⟩
  · obtain ⟨same, none_⟩ := limits_recorded (P := P) s m.recorded composed.req.host 0
      ((m.failed - m.before) / 1000) true
    exact ⟨same, (List.countP_cons_of_pos rfl).trans (congrArg (· + 1) none_)⟩
  next status raw ms connectionError _ =>
    obtain ⟨same, none_⟩ := limits_recorded (P := P) s m.recorded composed.req.host
      (Status.scanStatus raw status).code ms connectionError
    exact ⟨same, (List.countP_cons_of_pos rfl).trans (congrArg (· + 1) none_)⟩

/-- What goes out was paid for by one check, and what is refused is no dearer. -/
theorem pays_issue (pays : s.limits.Pays n) : (issue P s header body auth m).sender.limits.Pays
    (n + (issue P s header body auth m).effects.countP Effect.isIssued) := by
  have checked := pays.check m.gate
  rcases issue_cases P s header body auth m with ⟨reply, is⟩ | ⟨reply, is⟩ |
    ⟨req, deadlineUs, ident, composed, -, allowed, -, -, is⟩
  · rw [is]
    exact pays
  · rw [is]
    exact checked.mono (Nat.le_add_right n _)
  · obtain ⟨same, one⟩ := limits_transmitted (P := P)
      { s with limits := (s.limits.check m.gate).2 } composed deadlineUs auth m
    rw [if_pos allowed] at checked
    rw [is, same, one]
    exact checked

theorem pays_handled (pays : s.limits.Pays n) : (handled P s header body auth m).sender.limits.Pays
    (n + (handled P s header body auth m).effects.countP Effect.isIssued) := by
  have armed := pays.arm (D := P.digits) auth m.armed
  rw [handled]
  split
  next thrown limits is =>
    rw [is] at armed
    exact armed
  next limits is =>
    rw [is] at armed
    exact pays_issue (s := { s with limits }) armed

theorem keeps_issue : s.limits.Keeps (issue P s header body auth m).sender.limits := by
  rcases issue_cases P s header body auth m with ⟨reply, is⟩ | ⟨reply, is⟩ |
    ⟨req, deadlineUs, ident, composed, -, allowed, -, -, is⟩
  · rw [is]
    exact .refl s.limits
  · rw [is]
    exact .check s.limits m.gate
  · rw [is, (limits_transmitted (P := P) _ composed deadlineUs auth m).1]
    exact .check s.limits m.gate

theorem keeps_handled : s.limits.Keeps (handled P s header body auth m).sender.limits := by
  have armed := Limits.Keeps.arm (D := P.digits) s.limits auth m.armed
  rw [handled]
  split
  next thrown limits is =>
    rw [is] at armed
    exact armed
  next limits is =>
    rw [is] at armed
    exact armed.trans (keeps_issue (s := { s with limits }))

end Hx.Send.Sender

namespace Hx.Wiring.Extension

open Hx.Java Hx.Library Hx.Bridge Hx.Policy Hx.Send Hx.Proxy

/-- What an event took from the budget. -/
def cost : Event → ℕ
  | .frame _ _ effects => effects.countP Effect.isIssued
  | .proxied .crawler _ verdict => if verdict.allow = true then 1 else 0
  | _ => 0

def spent : List Event → ℕ
  | [] => 0
  | e :: past => spent past + cost e

variable {E : Setup} {past rest : List Event} {m n : Extension} {e : Event}

theorem received_limits {D : DigitMap} {U : CaseMap} {limits : Limits} {armed now : Int64}
    {req : HxRequest} {auth : Authorisation} {source : Source} {k : ℕ} (pays : limits.Pays k) :
    (ProxyGate.received U D limits armed now req auth source).2.Pays
        (k + cost (.proxied source req
          (ProxyGate.received U D limits armed now req auth source).1)) ∧
      limits.Keeps (ProxyGate.received U D limits armed now req auth source).2 := by
  have arms := pays.arm (D := D) auth armed
  have stays := Limits.Keeps.arm (D := D) limits auth armed
  rw [ProxyGate.received]
  split
  next thrown next is =>
    rw [is] at arms stays
    refine ⟨?_, stays⟩
    cases source <;> exact arms
  next next is =>
    rw [is] at arms stays
    cases decided : ProxyGate.decide U next now req auth source with
    | mk verdict after =>
        rcases ProxyGate.decide_cases decided with ⟨rfl, -, -, rfl, same⟩ | ⟨rfl, passes⟩
        · refine ⟨?_, stays.trans (.check next now)⟩
          have checked := arms.check now
          rw [← same] at checked
          exact checked
        · refine ⟨?_, stays⟩
          have free : cost (.proxied source req verdict) = 0 := by
            cases source with
            | crawler =>
                refine if_neg fun allow => ?_
                obtain ⟨other, -⟩ := passes allow
                cases other
            | operator => rfl
            | unattributed => rfl
          show after.Pays (k + cost (.proxied source req verdict))
          rw [free]
          exact arms

/-- Every step pays for what it lets out, from a limiter that stays. -/
theorem pays_step {k : ℕ} (pays : m.sender.limits.Pays k) (st : Step E m e n) :
    n.sender.limits.Pays (k + cost e) ∧ m.sender.limits.Keeps n.sender.limits := by
  cases st with
  | frame f moment wire reading =>
      rcases handle_cases (E := E) m f moment wire with ⟨-, -, is⟩ | ⟨quiet, silent⟩
      · obtain ⟨effects, sender, -⟩ := send_cases (E := E) m f moment wire
        rw [is, effects, sender]
        exact ⟨Sender.pays_handled pays, Sender.keeps_handled⟩
      · rw [silent, quiet.limits]
        exact ⟨pays, .refl _⟩
  | proxied source req armed now => exact received_limits pays
  | connected open_ idle => exact ⟨pays, .refl _⟩
  | disconnected reading => exact ⟨pays, .refl _⟩
  | closed => exact ⟨pays, .refl _⟩
  | switchStarted look clock => exact ⟨pays, .refl _⟩
  | polled look clock => exact ⟨pays, .refl _⟩
  | switchStopped => exact ⟨pays, .refl _⟩

theorem pays_spent (run : (system E).History past m) : m.sender.limits.Pays (spent past) := by
  induction run with
  | start init =>
      rw [show _ = new from init]
      exact ⟨fun _ => rfl, nofun⟩
  | step _ st ih => exact (pays_step ih st).1

theorem keeps_later (pays : m.sender.limits.Pays (spent past))
    (later : ((system E).startingAt m).History rest n) :
    m.sender.limits.Keeps n.sender.limits := by
  have both : n.sender.limits.Pays (spent past + spent rest) ∧
      m.sender.limits.Keeps n.sender.limits := by
    induction later with
    | start same =>
        rw [show _ = m from same]
        exact ⟨pays, .refl _⟩
    | step _ st ih =>
        obtain ⟨paid, stays⟩ := pays_step ih.1 st
        exact ⟨Nat.add_assoc .. ▸ paid, ih.2.trans stays⟩
  exact both.2

/-- Without a limiter nothing has gone out. With one, what has gone out is within its budget, and
every run from here on is held to the same limiter. -/
theorem spent_within_budget (run : (system E).History past m) :
    (m.sender.limits.limiter = none → spent past = 0) ∧
      ∀ limiter, m.sender.limits.limiter = some limiter →
        (spent past : Int) ≤ limiter.maxRequests.toInt ∧
        ∀ rest n, ((system E).startingAt m).History rest n →
          ∃ limiter', n.sender.limits.limiter = some limiter' ∧ limiter.Alike limiter' ∧
            (spent (rest ++ past) : Int) ≤ limiter.maxRequests.toInt := by
  have pays := pays_spent run
  refine ⟨pays.unarmed, fun limiter found => ?_⟩
  obtain ⟨paid, budget⟩ := pays.within limiter found
  refine ⟨paid.trans budget, fun rest n later => ?_⟩
  obtain ⟨limiter', found', alike⟩ := keeps_later pays later limiter found
  obtain ⟨paid', budget'⟩ := (pays_spent (run.append later)).within limiter' found'
  exact ⟨limiter', found', alike, alike.requests ▸ paid'.trans budget'⟩

/-- The state behind the first send, which spent one request of the two thousand. -/
def answered : Extension := (handle deployed configured_ firstSend promptly arrives).extension

theorem firstSend_within_budget : ∃ limiter, answered.sender.limits.limiter = some limiter ∧
    (spent (.frame firstSend promptly
      (handle deployed configured_ firstSend promptly arrives).effects :: firstEvents) : Int) ≤
        limiter.maxRequests.toInt := by
  obtain ⟨reading, -, armed⟩ := firstSend_issued
  have run := firstEvents_run.step (Step.frame firstSend promptly arrives reading)
  obtain ⟨limiter, found⟩ := Option.isSome_iff_exists.1 armed
  exact ⟨limiter, found, ((spent_within_budget run).2 limiter found).1⟩

/-! ## Behind a stop -/

/-- Nothing goes out while a host is distressed. -/
theorem effects_of_stopped {stop : Stop} (announces : m.sender.Announces)
    (stopped : m.sender.distress.stop = some stop) (st : Step E m e n) : e.effects = [] := by
  cases st with
  | frame f moment wire reading =>
      show (handle E m f moment wire).effects = []
      rcases handle_cases (E := E) m f moment wire with ⟨-, -, is⟩ | ⟨-, silent⟩
      · obtain ⟨effects, -⟩ := send_cases (E := E) m f moment wire
        rw [is, effects]
        rcases Sender.handled_cases E.platform f.header f.body m.committed moment announces with
          ⟨limits, outcome, none_⟩ |
            ⟨req, deadlineUs, ident, composed, limits, distress, outcome, met, -⟩
        · rw [none_]
        · have calm := (Sender.issuanceHeldReason_eq_none.1 met.running).2
          rw [stopped] at calm
          cases calm
      · exact silent
  | connected open_ idle => rfl
  | disconnected reading => rfl
  | closed => rfl
  | switchStarted look clock => rfl
  | polled look clock => rfl
  | switchStopped => rfl
  | proxied source req armed now => rfl

/-- A stop is told once. Nothing is issued after it and no other stop is told, whatever is
configured, resumed or connected again. -/
theorem silent_after_stop (run : (system E).History past m) (stopped : stops past ≠ [])
    (later : ((system E).startingAt m).History rest n) :
    (stops (rest ++ past)).length = 1 ∧ ∀ e ∈ rest, e.effects = [] := by
  have whole {h : List Event} {s : Extension} (run : (system E).History h s)
      (some_ : stops h ≠ []) :
      (stops h).length = 1 ∧ ∃ stop, s.sender.distress.stop = some stop := by
    have kept := (records run).stops
    cases is : s.sender.distress.stop with
    | none =>
        rw [is] at kept
        exact absurd kept.symm some_
    | some stop =>
        rw [is] at kept
        exact ⟨congrArg List.length kept.symm, stop, rfl⟩
  have both : (stops (rest ++ past) ≠ []) ∧ ∀ e ∈ rest, e.effects = [] := by
    induction later with
    | start same => exact ⟨stopped, nofun⟩
    | @step h s t e before st ih =>
        obtain ⟨some_, quiet⟩ := ih
        have there := run.append before
        obtain ⟨-, stop, is⟩ := whole there some_
        have none_ := effects_of_stopped (records there).announces is st
        refine ⟨?_, ?_⟩
        · show told e.effects ++ stops (h ++ past) ≠ []
          rw [none_]
          exact some_
        · intro e' mem
          rcases List.mem_cons.1 mem with rfl | mem
          · exact none_
          · exact quiet e' mem
  exact ⟨(whole (run.append later) both.1).1, both.2⟩

/-- Stops at the first connection error. -/
def touchy : Setup :=
  { deployed with platform := { deployed.platform with
      distress := { deployedDistress with maxConsecutiveErrors := 1, errors := by decide } } }

def unreachable : Moment :=
  { promptly with answer := .ioException (js "IOException") (js "refused") }

def refused : Extension := (handle touchy configured_ firstSend unreachable arrives).extension

def resume : Frame := request "resume" [] ""

/-- One connection error, in the order of `firstEvents`. -/
def refusedEvents : List Event :=
  [.frame firstSend unreachable (handle touchy configured_ firstSend unreachable arrives).effects,
    .frame firstConfigure promptly
      (handle touchy dialled firstConfigure promptly arrives).effects,
    .connected]

theorem refusedEvents_run : (system touchy).History refusedEvents refused := by
  have fresh : (system touchy).History [] new := .start rfl
  have dial : (system touchy).History [.connected] dialled := fresh.step (Step.connected rfl rfl)
  have run := dial.step (Step.frame firstConfigure promptly arrives rfl)
  have same : (handle touchy dialled firstConfigure promptly arrives).extension = configured_ := rfl
  rw [same] at run
  exact run.step (Step.frame firstSend unreachable arrives firstSend_issued.1)

theorem refused_told : refused.reading = true ∧ (stops refusedEvents).isEmpty = false := by
  decide +kernel

/-- After the first connection error there is one stop, and a resume lets nothing out. -/
theorem refused_silent :
    (handle touchy refused resume promptly arrives).effects = [] ∧
      (stops (.frame resume promptly (handle touchy refused resume promptly arrives).effects ::
        refusedEvents)).length = 1 := by
  obtain ⟨reading, out⟩ := refused_told
  have told_ : stops refusedEvents ≠ [] := List.isEmpty_eq_false_iff.1 out
  have stays : ((system touchy).startingAt refused).History [] refused := .start rfl
  have later := stays.step (Step.frame resume promptly arrives reading)
  obtain ⟨one, silent⟩ := silent_after_stop refusedEvents_run told_ later
  have nothing := silent _ List.mem_cons_self
  exact ⟨nothing, one⟩

end Hx.Wiring.Extension
