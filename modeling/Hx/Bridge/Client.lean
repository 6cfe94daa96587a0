import Hx.Bridge.Frame
import Hx.Library.Transition

/-!
# The bridge client

`BridgeClient` publishes an authorisation through one reference and a permission
through one flag. The read loop writes both, `close` writes both from another
thread, and `commitLock` keeps a commit and a close apart. Each volatile write is a
step of its own; what the peer, the configure guard, the send path and the halt
sink answer is left to the step relation.

`connect` runs on one thread, one connection after another, as its caller does.
An epoch counter is a natural number: a `long` cannot be exhausted by frames.
-/

namespace Hx.Bridge

open Hx.Java Hx.Library

/-- What `handle` makes of a frame before anything is decided about its body. -/
inductive Arm where
  | protocolMismatch
  | badFrame
  | engagementMismatch
  | configure
  | send
  | identity
  | halt (why : Option JString)
  | resume
  | unknown
  deriving DecidableEq

/-- The head of `handle`: the version, the type, and the two header checks that leave
a `configure` unconsidered. -/
def arm (engagementId : JString) (f : Frame) : Arm :=
  if !f.speaks then .protocolMismatch
  else if f.kind = js "configure" then
    if f.deadline = none then .badFrame
    else if !f.serves engagementId then .engagementMismatch
    else .configure
  else if f.kind = js "send" then
    if !f.serves engagementId then .engagementMismatch else .send
  else if f.kind = js "identity" then
    if f.deadline = none then .badFrame
    else if !f.serves engagementId then .engagementMismatch
    else .identity
  else if f.kind = js "halt" then .halt f.reason
  else if f.kind = js "resume" then .resume
  else .unknown

/-- What comes after a deny on the read loop: an answer to the frame, the rest of the
send that could not announce a stop, the way out of the loop, or the end of the
connection. -/
inductive Next where
  | answering
  | sending
  | leaving
  | gone

/-- Where the thread of `connect` stands. From `locked` to `published` it holds
`commitLock`. -/
inductive Pc where
  | idle
  | dialling
  | reading
  | received (f : Frame)
  | considering (f : Frame)
  | locking (scope : Scope)
  | locked (scope : Scope)
  | published (epoch : Nat)
  | answering
  | sending
  | switched (why : Option JString)
  | stopped (why : Option JString)
  | resumed
  | clearing (next : Next)
  | erasing (next : Next)
  | leaving

def Next.pc : Next → Pc
  | .answering => .answering
  | .sending => .sending
  | .leaving => .leaving
  | .gone => .idle

/-- Where a call of `close` stands; it holds `commitLock` throughout. -/
inductive Closer where
  | idle
  | locked
  | marked
  | cleared

/-- The holder of `commitLock`. -/
inductive Holder where
  | reader
  | closer
  deriving DecidableEq

structure Client where
  closed : Bool
  configured : Bool
  halted : Bool
  haltReason : Option JString
  committed : Authorisation
  epochCounter : Nat
  lock : Option Holder
  pc : Pc
  closer : Closer
  held : Option JString

namespace Client

/-- What the configure guard answered: accepted, refused, or it threw. -/
inductive Guard where
  | accepts
  | refuses (why : JString)
  | throws (t : JString)
  deriving DecidableEq

/-- How `ConfigBody.parse` fails: with the error the arm catches, or otherwise. -/
inductive ParseFailure where
  | frameError (message : JString)
  | other

/-- `held` is what the halt source answers, an uninstalled or throwing one included. -/
def maySend (m : Client) : Bool := m.configured && !m.halted && m.held.isNone

/-- The text `checkMaySend` throws, or `none` when it throws nothing. -/
def checkMaySend (m : Client) : Option JString :=
  if !m.configured then some (js "not_configured: no configure frame acknowledged yet")
  else if m.halted then some (js "halted: " ++ m.haltReason.getD (js "no reason given"))
  else match m.held with
    | none => none
    | some held => some (js "halted: " ++ held)

/-- The labels name what was decided. `refused`, `ended`, `threw`, `undeliverable` and
`closeMark` are the deny events; the two writes that carry one out follow them. -/
inductive Event where
  | dial
  | dialFails
  | connected
  | read (f : Frame)
  | ended
  | unconsidered (a : Arm)
  | consider
  | refused (why : JString)
  | accepted (scope : Scope)
  | acquire
  | publish (epoch : Nat) (scope : Scope)
  | armed (epoch : Nat)
  | answered
  | send
  | sent
  | undeliverable
  | threw
  | identity
  | switch (why : Option JString)
  | stop (why : Option JString)
  | reason
  | resume
  | rearm
  | clear
  | erase
  | close
  | closeMark
  | closeClear
  | closeErase
  | held (why : Option JString)

/-- The text of a refusal by the guard. -/
def guardRefusal : Guard → Option JString
  | .accepts => none
  | .refuses why => some why
  | .throws t => some (js "the configure guard could not decide about this body: " ++ t)

variable (engagementId : JString) (parse : List UInt8 → Except ParseFailure Scope)

inductive Step : Client → Event → Client → Prop where
  | dial {m : Client} : m.pc = .idle → m.closed = false →
      Step m .dial { m with pc := .dialling }
  | dialFails {m : Client} : m.pc = .dialling → Step m .dialFails { m with pc := .idle }
  | connected {m : Client} : m.pc = .dialling → m.closed = false →
      Step m .connected { m with pc := .reading }
  | read {m : Client} (f : Frame) : m.pc = .reading → Step m (.read f) { m with pc := .received f }
  | disconnected {m : Client} : m.pc = .reading → Step m .ended { m with pc := .leaving }
  | raised {m : Client} {f : Frame} : m.pc = .received f ∨ m.pc = .considering f →
      Step m .ended { m with pc := .leaving }
  | closedFrame {m : Client} {f : Frame} : m.pc = .received f → m.closed = true →
      Step m .ended { m with pc := .leaving }
  | mismatch {m : Client} {f : Frame} : m.pc = .received f →
      arm engagementId f = .protocolMismatch → Step m .ended { m with pc := .leaving }
  | unconsidered {m : Client} {f : Frame} : m.pc = .received f → m.closed = false →
      arm engagementId f ∈ [Arm.badFrame, .engagementMismatch, .unknown] →
      Step m (.unconsidered (arm engagementId f)) { m with pc := .answering }
  | consider {m : Client} {f : Frame} : m.pc = .received f → m.closed = false →
      arm engagementId f = .configure → Step m .consider { m with pc := .considering f }
  | unparsed {m : Client} {f : Frame} {message : JString} : m.pc = .considering f →
      parse f.body = .error (.frameError message) →
      Step m (.refused message) { m with pc := .clearing .answering }
  | parseThrows {m : Client} {f : Frame} : m.pc = .considering f →
      parse f.body = .error .other →
      Step m (.refused (js "the body could not be parsed")) { m with pc := .leaving }
  | guarded {m : Client} {f : Frame} {scope : Scope} {guard : Guard} {why : JString} :
      m.pc = .considering f → parse f.body = .ok scope → guardRefusal guard = some why →
      Step m (.refused why) { m with pc := .clearing .answering }
  | accepted {m : Client} {f : Frame} {scope : Scope} : m.pc = .considering f →
      parse f.body = .ok scope → Step m (.accepted scope) { m with pc := .locking scope }
  | acquire {m : Client} {scope : Scope} : m.pc = .locking scope → m.lock = none →
      Step m .acquire { m with pc := .locked scope, lock := some .reader }
  | closedCommit {m : Client} {scope : Scope} : m.pc = .locked scope → m.closed = true →
      Step m .ended { m with pc := .leaving, lock := none }
  | publish {m : Client} {scope : Scope} : m.pc = .locked scope → m.closed = false →
      Step m (.publish (m.epochCounter + 1) scope)
        { m with
          pc := .published (m.epochCounter + 1)
          epochCounter := m.epochCounter + 1
          committed := ⟨m.epochCounter + 1, scope⟩ }
  | armed {m : Client} {epoch : Nat} : m.pc = .published epoch →
      Step m (.armed epoch) { m with pc := .answering, configured := true, lock := none }
  | answered {m : Client} : m.pc = .answering → Step m .answered { m with pc := .reading }
  | unanswered {m : Client} : m.pc = .answering → Step m .ended { m with pc := .leaving }
  | send {m : Client} {f : Frame} : m.pc = .received f → m.closed = false →
      arm engagementId f = .send → Step m .send { m with pc := .sending }
  | undeliverable {m : Client} : m.pc = .sending →
      Step m .undeliverable { m with pc := .clearing .sending }
  | sent {m : Client} : m.pc = .sending → Step m .sent { m with pc := .answering }
  | sendThrows {m : Client} : m.pc = .sending →
      Step m .threw { m with pc := .clearing .leaving }
  | identity {m : Client} {f : Frame} : m.pc = .received f → m.closed = false →
      arm engagementId f = .identity → Step m .identity { m with pc := .answering }
  | switch {m : Client} {f : Frame} {why : Option JString} : m.pc = .received f →
      m.closed = false → arm engagementId f = .halt why →
      Step m (.switch why) { m with pc := .switched why }
  | switchThrows {m : Client} {f : Frame} {why : Option JString} : m.pc = .received f →
      m.closed = false → arm engagementId f = .halt why →
      Step m .threw { m with pc := .clearing .leaving }
  | stop {m : Client} {why : Option JString} : m.pc = .switched why →
      Step m (.stop why) { m with pc := .stopped why, halted := true }
  | reason {m : Client} {why : Option JString} : m.pc = .stopped why →
      Step m .reason { m with pc := .reading, haltReason := why }
  | resume {m : Client} {f : Frame} : m.pc = .received f → m.closed = false →
      arm engagementId f = .resume → Step m .resume { m with pc := .resumed, halted := false }
  | rearm {m : Client} : m.pc = .resumed → Step m .rearm { m with pc := .reading }
  | rearmThrows {m : Client} : m.pc = .resumed →
      Step m .threw { m with pc := .clearing .leaving }
  | leave {m : Client} : m.pc = .leaving → Step m .ended { m with pc := .clearing .gone }
  | clear {m : Client} {next : Next} : m.pc = .clearing next →
      Step m .clear { m with pc := .erasing next, configured := false }
  | erase {m : Client} {next : Next} : m.pc = .erasing next →
      Step m .erase { m with pc := next.pc, committed := denied }
  | close {m : Client} : m.closer = .idle → m.lock = none →
      Step m .close { m with closer := .locked, lock := some .closer }
  | closeMark {m : Client} : m.closer = .locked →
      Step m .closeMark { m with closer := .marked, closed := true }
  | closeClear {m : Client} : m.closer = .marked →
      Step m .closeClear { m with closer := .cleared, configured := false }
  | closeErase {m : Client} : m.closer = .cleared →
      Step m .closeErase { m with closer := .idle, committed := denied, lock := none }
  | held {m : Client} (why : Option JString) : Step m (.held why) { m with held := why }

/-- A client as its constructor leaves it. -/
def Starts (m : Client) : Prop :=
  m.closed = false ∧ m.configured = false ∧ m.halted = false ∧ m.committed = denied ∧
  m.epochCounter = 0 ∧ m.lock = none ∧ m.pc = .idle ∧ m.closer = .idle

def system : System Client Event where
  init := Starts
  step := Step engagementId parse

/-- `checkMaySend` throws exactly when `maySend` answers false. -/
theorem checkMaySend_eq_none {m : Client} : m.checkMaySend = none ↔ m.maySend = true := by
  unfold checkMaySend maySend
  cases m.configured <;> cases m.halted <;> cases m.held <;> simp

/-! ## What a history says -/

/-- What an event does to the authorisation a run holds. -/
inductive Effect where
  | grants (a : Authorisation)
  | revokes
  | considers
  | nothing

/-- A commit grants; a deny event and a new connection revoke; a configure that is
being considered leaves the previous one in force. -/
def Event.effect : Event → Effect
  | .publish epoch scope => .grants ⟨epoch, scope⟩
  | .consider => .considers
  | .dial | .ended | .refused _ | .threw | .undeliverable | .closeMark => .revokes
  | _ => .nothing

/-- The authorisation the history grants: the last commit, unless a deny event or a new
connection came after it. -/
def authority : List Event → Authorisation
  | [] => denied
  | e :: past =>
      match e.effect with
      | .grants a => a
      | .revokes => denied
      | .considers => authority past
      | .nothing => authority past

/-- The most recent configure to be considered was committed on this connection, and no
deny event came after it. -/
def standing : List Event → Bool
  | [] => false
  | e :: past =>
      match e.effect with
      | .grants _ => true
      | .revokes => false
      | .considers => false
      | .nothing => standing past

/-- The last `halt` or `resume` frame to take effect was a `halt`. -/
def haltFlag : List Event → Bool
  | [] => false
  | .stop _ :: _ => true
  | .resume :: _ => false
  | _ :: past => haltFlag past

/-- The epochs committed over the life of the client, newest first. -/
def epochs : List Event → List Nat
  | [] => []
  | .publish epoch _ :: past => epoch :: epochs past
  | _ :: past => epochs past

variable {past later : List Event}

/-- A deny event stands until the next commit. -/
theorem authority_append_revoked {e : Event} (revokes : e.effect = .revokes)
    (uncommitted : ∀ epoch scope, .publish epoch scope ∉ later) :
    authority (later ++ e :: past) = denied := by
  induction later with
  | nil => simp [authority, revokes]
  | cons last later ih =>
      have kept := ih fun epoch scope committed => uncommitted epoch scope (.tail _ committed)
      cases last with
      | publish epoch scope => exact absurd (.head _) (uncommitted epoch scope)
      | _ => first | exact kept | rfl

end Client

end Hx.Bridge
