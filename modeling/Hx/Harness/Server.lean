import Hx.Harness.Halt
import Hx.Library.Transition
import Mathlib.Tactic.SplitIfs

/-!
# The harness end of the bridge

`BridgeServer` is one state string, one epoch, one connection and a generation
that every accept and every reset advances. Its methods are written here as
functions on that record, one for each region the code runs under its mutex, and
`Station` adds the operator halt they consult.

`halt` and `resume` continue the stages of the operator halt with the frame and
the commit; which stages raise is an argument.
-/

namespace Hx.Harness

open Hx.Library OperatorHalt

/-- `BridgeServer.state`. -/
inductive Link where
  | waiting
  | connected
  | configured
  | halted
  deriving DecidableEq

structure BridgeServer where
  engagementId : String
  state : Link
  configEpoch : Int
  conn : Option Nat
  generation : Nat
  rejectedHellos : Nat

/-- The string the code stores. -/
def Link.text : Link → String
  | .waiting => "waiting"
  | .connected => "connected"
  | .configured => "configured"
  | .halted => "halted"

/-- A `BridgeError`: its text and its `error_class`. -/
structure BridgeError where
  message : String
  errorClass : Option String

def protocolVersion : Int := 1

/-- The `t` of a received frame, with the fields `_handle` reads. -/
inductive Kind where
  | hello (engagementId : Option String)
  | halted
  | capture
  | reply
  | other

structure Incoming where
  v : Option Int
  kind : Kind

/-- What `_handle` does next. `reassert` and `callback` are the two arms that go on
after their region: the halt look of a `hello` and `on_halted`. -/
inductive Next where
  | close
  | keep
  | reassert
  | callback
  deriving DecidableEq

/-- A reply to `configure`: none came, an `error` frame, or an acknowledgement whose
`config_epoch` is missing, not an integer, or read. -/
inductive Reply where
  | lost
  | error (errorClass detail : Option String)
  | noEpoch
  | badEpoch
  | epoch (n : Int)

namespace BridgeServer

def new (engagementId : String) : BridgeServer := ⟨engagementId, .waiting, 0, none, 0, 0⟩

/-- The region at the head of `_serve`. A connection is named by its generation. -/
def serve (s : BridgeServer) : BridgeServer :=
  { s with generation := s.generation + 1, conn := some (s.generation + 1) }

/-- `_reset`, guarded by the generation of the connection that ends. -/
def reset (gen : Nat) (s : BridgeServer) : BridgeServer :=
  if gen ≠ s.generation then s
  else { s with generation := s.generation + 1, state := .waiting, configEpoch := 0, conn := none }

/-- `_handle` up to the first point where it leaves the mutex. -/
def handle (f : Incoming) (s : BridgeServer) : BridgeServer × Next :=
  if f.v ≠ some protocolVersion then (s, .close)
  else match f.kind with
    | .hello id =>
        if id ≠ some s.engagementId then ({ s with rejectedHellos := s.rejectedHellos + 1 }, .close)
        else ({ s with state := .connected, configEpoch := 0 }, .reassert)
    | .halted => ({ s with state := .halted }, .callback)
    | .capture => (s, .keep)
    | .reply => (s, .keep)
    | .other => (s, .close)

/-- The commit of `_reassert_halt`, after its frame. -/
def reasserted (s : BridgeServer) : BridgeServer := { s with state := .halted }

def mayConfigure (s : BridgeServer) : Bool :=
  s.state == .connected || s.state == .configured || s.state == .halted

/-- The generation and the connection are still those a caller started with. -/
def sameConnection (gen : Nat) (s : BridgeServer) : Bool :=
  gen == s.generation && s.conn.isSome

/-- `_DENYING_CONFIGURE_ERRORS`. -/
def denying (errorClass : Option String) : Bool :=
  errorClass == some "bad_config" || errorClass == some "protocol_mismatch"

/-- `str.rstrip(": ")`. -/
def rstrip (s : String) : String :=
  String.ofList (s.toList.reverse.dropWhile fun c => c == ':' || c == ' ').reverse

/-- `configure` from its reply on: the record it leaves, and the epoch or the error. -/
def configureAnswered (gen : Nat) (reply : Reply) (s : BridgeServer) :
    BridgeServer × Except BridgeError Int :=
  match reply with
  | .lost => (s, .error ⟨"peer disconnected before replying to configure", some "bridge_lost"⟩)
  | .error cls detail =>
      (if denying cls && s.sameConnection gen then { s with state := .connected, configEpoch := 0 }
        else s,
        .error ⟨rstrip ("peer refused configure: " ++ cls.getD "unspecified" ++ ": " ++
          detail.getD ""), none⟩)
  | .noEpoch => (s, .error ⟨"peer acknowledged configure without a config_epoch", none⟩)
  | .badEpoch =>
      if s.sameConnection gen then (s, .error ⟨"invalid literal for int()", none⟩)
      else (s, .error ⟨"peer disconnected before configure completed", none⟩)
  | .epoch n =>
      if s.sameConnection gen then
        ({ s with
            configEpoch := n
            state := if s.state = .halted then .halted else .configured }, .ok n)
      else (s, .error ⟨"peer disconnected before configure completed", none⟩)

/-- The commit of `halt`. -/
def haltCommit (s : BridgeServer) : BridgeServer := { s with state := .halted }

/-- The commit of `resume`. -/
def resumeCommit (s : BridgeServer) : BridgeServer :=
  { s with state := if s.configEpoch ≠ 0 then .configured else .connected }

/-- `_RESERVED_SEND_KEYS`, sorted as the refusal lists them. -/
def reservedSendKeys : List String := ["deadline_us", "engagement_id", "id", "t", "v"]

end BridgeServer

/-- A server with the operator halt it was built over. -/
structure Station where
  durable : Durable
  server : BridgeServer

/-- The calls `halt` makes, in order. -/
inductive HaltStep where
  | durable (stage : HaltStage)
  | send
  | commit
  deriving DecidableEq

/-- The calls `resume` makes, in order. -/
inductive ResumeStep where
  | send
  | commit
  | durable (stage : ResumeStage)
  deriving DecidableEq

namespace Station

def haltSteps : List HaltStep := haltStages.map .durable ++ [.send, .commit]

def resumeSteps : List ResumeStep := [.send, .commit] ++ resumeStages.map .durable

def haltEffect (c : HaltCall) : HaltStep → Station → Station
  | .durable stage, h => { h with durable := Durable.haltEffect c stage h.durable }
  | .send, h => h
  | .commit, h => { h with server := h.server.haltCommit }

def resumeEffect (insertedUs : Int) : ResumeStep → Station → Station
  | .send, h => h
  | .commit, h => { h with server := h.server.resumeCommit }
  | .durable stage, h => { h with durable := Durable.resumeEffect insertedUs stage h.durable }

/-- The steps of `halt` that raise: those the caller names, and the two that need a
connection when there is none. -/
def haltRaises (raises : HaltStep → Bool) (h : Station) : HaltStep → Bool
  | .durable .arm => false
  | .durable stage => raises (.durable stage)
  | .send => raises .send || h.server.conn.isNone
  | .commit => raises .commit || h.server.conn.isNone

def resumeRaises (raises : ResumeStep → Bool) (h : Station) : ResumeStep → Bool
  | .send => raises .send || h.server.conn.isNone
  | .commit => raises .commit || h.server.conn.isNone
  | .durable .disarm => false
  | .durable stage => raises (.durable stage)

/-- What a call of `halt` leaves, returned or raised. -/
def halt (raises : HaltStep → Bool) (c : HaltCall) (h : Station) : Station :=
  runStages (haltEffect c) (completed (haltRaises raises h) haltSteps) h

def resume (raises : ResumeStep → Bool) (insertedUs : Int) (h : Station) : Station :=
  runStages (resumeEffect insertedUs) (completed (resumeRaises raises h) resumeSteps) h

/-- The step a call of `resume` raises at, or `none` when it returns. -/
def resumeOutcome (raises : ResumeStep → Bool) (h : Station) : Option ResumeStep :=
  resumeSteps.find? (resumeRaises raises h)

/-- The checks `send` makes before it writes a frame. -/
def sendCheck (keys : List String) (enforceLocally : Bool) (h : Station) :
    Except BridgeError Unit :=
  let bad := BridgeServer.reservedSendKeys.filter (keys.contains ·)
  if bad ≠ [] then
    .error ⟨"send() stamps [" ++ ", ".intercalate (bad.map fun k => "'" ++ k ++ "'") ++
      "] itself; a caller may not set them. An engagement_id from the caller in particular " ++
      "would address whichever extension answers, not this engagement's.", none⟩
  else if !enforceLocally then .ok ()
  else if h.durable.halted then
    .error ⟨"halted: " ++ (h.durable.operator.reason h.durable.disk).getD "None", some "halted"⟩
  else if h.server.state = .halted then .error ⟨"halted", some "halted"⟩
  else if h.server.state ≠ .configured then
    .error ⟨"not configured: bridge state is '" ++ h.server.state.text ++ "'",
      some "not_configured"⟩
  else .ok ()

/-- `send` refuses every request, under the checks it makes by default. -/
def SendRefuses (h : Station) : Prop :=
  ∀ keys, ∃ e, h.sendCheck keys true = .error e

theorem sendRefuses_iff (h : Station) :
    h.SendRefuses ↔ h.durable.halted = true ∨ h.server.state ≠ .configured := by
  constructor
  · intro refuses
    obtain ⟨e, refused⟩ := refuses []
    by_contra passes
    rw [not_or, Bool.not_eq_true, not_not] at passes
    simp [sendCheck, passes.1, passes.2] at refused
  · intro stopped keys
    simp only [sendCheck, Bool.not_true, Bool.false_eq_true, if_false]
    split_ifs with bad halted frame unconfigured
    · exact ⟨_, rfl⟩
    · exact ⟨_, rfl⟩
    · exact ⟨_, rfl⟩
    · exact ⟨_, rfl⟩
    · exact absurd stopped (not_or.2 ⟨halted, unconfigured⟩)

end Station

end Hx.Harness
