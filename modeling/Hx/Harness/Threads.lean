import Hx.Harness.Server

/-!
# Threads of the harness

Callers of `configure`, `halt` and `resume` run beside the read thread. A region
under the server's mutex is one step, since every other writer takes the mutex and
an unlocked reader takes one field at a time; each unlocked read, each write of a
frame and each stage of the operator halt is a step of its own. `OperatorHalt`
has its own lock, held from the first stage of its `halt` or `resume` to the last.

A frame is written only to a socket that is still open, which it is until the read
thread closes it. `wire` lists the frames written, newest first.
-/

namespace Hx.Harness

open Hx.Library OperatorHalt

/-- The frames this side writes that bear on a halt. -/
inductive Frame where
  | halt
  | resume
  | configure
  deriving DecidableEq

namespace Threads

/-- What a caller does next. `halting` and `clearing` hold the lock of the operator
halt and list the stages that are left; `snapped` has read the generation,
`sending` has also read the connection. -/
inductive Pc where
  | idle
  | halting (c : HaltCall) (rest : List HaltStage)
  | ready (f : Frame)
  | snapped (f : Frame) (gen : Nat)
  | sending (f : Frame) (gen conn : Nat)
  | written (f : Frame) (gen : Nat)
  | committed
  | clearing (insertedUs : Int) (rest : List ResumeStage)

/-- Where the read thread stands: between frames, between the region of a `hello` and
the two reads of `halted`, before and after the re-asserted frame, in a callback,
before `_reset` and before the socket is closed. -/
inductive Phase where
  | reading
  | published
  | unarmed
  | reasserting
  | reasserted
  | callback
  | closing
  | reset
  deriving DecidableEq

/-- The connection the read thread serves. `greeted` is set once the halt look of a
`hello` on it is over. -/
structure Serving where
  gen : Nat
  greeted : Bool
  phase : Phase

structure Machine where
  station : Station
  lock : Option Nat
  reader : Option Serving
  pc : Nat → Pc
  wire : List (Nat × Frame)

inductive Event where
  | accept (halted : Bool)
  | receive (f : Incoming)
  | lookArmed
  | lookFile
  | reassert
  | reassertFails
  | reassertCommit
  | callback (raises : Bool)
  | drop
  | reset
  | closed
  | configure (k : Nat)
  | halt (k : Nat) (c : HaltCall)
  | resume (k : Nat)
  | stage (k : Nat) (stage : HaltStage)
  | stageRaises (k : Nat)
  | release (k : Nat)
  | snap (k : Nat)
  | connect (k : Nat)
  | sendRaises (k : Nat)
  | write (k conn : Nat) (f : Frame)
  | commitHalt (k : Nat)
  | commitResume (k : Nat)
  | stale (k : Nat)
  | answered (k : Nat) (reply : Reply)
  | acquire (k : Nat) (insertedUs : Int)
  | clear (k : Nat) (stage : ResumeStage)
  | clearRaises (k : Nat)
  | done (k : Nat)
  | sentinel (s : Sentinel)

namespace Machine

def server (m : Machine) : BridgeServer := m.station.server

def durable (m : Machine) : Durable := m.station.durable

def withServer (m : Machine) (s : BridgeServer) : Machine :=
  { m with station := { m.station with server := s } }

def withDurable (m : Machine) (d : Durable) : Machine :=
  { m with station := { m.station with durable := d } }

def goto (m : Machine) (k : Nat) (p : Pc) : Machine := { m with pc := Function.update m.pc k p }

def serving (m : Machine) (r : Serving) : Machine := { m with reader := some r }

@[simp] theorem goto_station (m : Machine) (k : Nat) (p : Pc) :
    (m.goto k p).station = m.station := rfl

@[simp] theorem goto_reader (m : Machine) (k : Nat) (p : Pc) :
    (m.goto k p).reader = m.reader := rfl

@[simp] theorem goto_wire (m : Machine) (k : Nat) (p : Pc) : (m.goto k p).wire = m.wire := rfl

@[simp] theorem goto_lock (m : Machine) (k : Nat) (p : Pc) : (m.goto k p).lock = m.lock := rfl

end Machine

def Phase.after : Next → Phase
  | .close => .closing
  | .keep => .reading
  | .reassert => .published
  | .callback => .callback

/-- The file as some other process leaves it. -/
def withSentinel (d : Durable) (s : Sentinel) : Durable :=
  { d with disk := { d.disk with sentinel := s } }

open Machine in
inductive Step : Machine → Event → Machine → Prop where
  | accept {m : Machine} : m.reader = none →
      Step m (.accept m.durable.halted)
        ((m.withServer m.server.serve).serving ⟨m.server.serve.generation, false, .reading⟩)
  | receive {m : Machine} {r : Serving} (f : Incoming) : m.reader = some r → r.phase = .reading →
      Step m (.receive f)
        ((m.withServer (m.server.handle f).1).serving
          { r with phase := .after (m.server.handle f).2 })
  | lookArmed {m : Machine} {r : Serving} : m.reader = some r → r.phase = .published →
      Step m .lookArmed
        (m.serving
          { r with phase := if m.durable.operator.armed then .reasserting else .unarmed })
  | lookFile {m : Machine} {r : Serving} : m.reader = some r → r.phase = .unarmed →
      Step m .lookFile
        (m.serving (if sentinelPresent m.durable.disk then { r with phase := .reasserting }
          else { r with greeted := true, phase := .callback }))
  | reassert {m : Machine} {r : Serving} : m.reader = some r → r.phase = .reasserting →
      m.server.conn = some r.gen →
      Step m .reassert
        { m.serving { r with phase := .reasserted } with wire := (r.gen, .halt) :: m.wire }
  | reassertFails {m : Machine} {r : Serving} : m.reader = some r → r.phase = .reasserting →
      Step m .reassertFails (m.serving { r with phase := .closing })
  | reassertCommit {m : Machine} {r : Serving} : m.reader = some r → r.phase = .reasserted →
      Step m .reassertCommit
        ((m.withServer m.server.reasserted).serving
          { r with greeted := true, phase := .callback })
  | callback {m : Machine} {r : Serving} (raises : Bool) : m.reader = some r →
      r.phase = .callback →
      Step m (.callback raises)
        (m.serving { r with phase := if raises then .closing else .reading })
  | drop {m : Machine} {r : Serving} : m.reader = some r → r.phase = .reading →
      Step m .drop (m.serving { r with phase := .closing })
  | reset {m : Machine} {r : Serving} : m.reader = some r → r.phase = .closing →
      Step m .reset ((m.withServer (m.server.reset r.gen)).serving { r with phase := .reset })
  | closed {m : Machine} {r : Serving} : m.reader = some r → r.phase = .reset →
      Step m .closed { m with reader := none }
  | configure {m : Machine} {k : Nat} : m.pc k = .idle → m.server.mayConfigure = true →
      Step m (.configure k) (m.goto k (.ready .configure))
  | halt {m : Machine} {k : Nat} (c : HaltCall) : m.pc k = .idle → m.lock = none →
      Step m (.halt k c) { m.goto k (.halting c haltStages) with lock := some k }
  | resume {m : Machine} {k : Nat} : m.pc k = .idle →
      Step m (.resume k) (m.goto k (.ready .resume))
  | stage {m : Machine} {k : Nat} {c : HaltCall} {stage : HaltStage} {rest : List HaltStage} :
      m.pc k = .halting c (stage :: rest) →
      Step m (.stage k stage)
        ((m.withDurable (Durable.haltEffect c stage m.durable)).goto k (.halting c rest))
  | stageRaises {m : Machine} {k : Nat} {c : HaltCall} {stage : HaltStage}
      {rest : List HaltStage} : m.pc k = .halting c (stage :: rest) → stage ≠ .arm →
      Step m (.stageRaises k) { m.goto k .idle with lock := none }
  | release {m : Machine} {k : Nat} {c : HaltCall} : m.pc k = .halting c [] →
      Step m (.release k) { m.goto k (.ready .halt) with lock := none }
  | snap {m : Machine} {k : Nat} {f : Frame} : m.pc k = .ready f →
      Step m (.snap k) (m.goto k (.snapped f m.server.generation))
  | connect {m : Machine} {k gen conn : Nat} {f : Frame} : m.pc k = .snapped f gen →
      m.server.conn = some conn → Step m (.connect k) (m.goto k (.sending f gen conn))
  | notConnected {m : Machine} {k gen : Nat} {f : Frame} : m.pc k = .snapped f gen →
      Step m (.sendRaises k) (m.goto k .idle)
  | writeFails {m : Machine} {k gen conn : Nat} {f : Frame} : m.pc k = .sending f gen conn →
      Step m (.sendRaises k) (m.goto k .idle)
  | write {m : Machine} {k gen : Nat} {r : Serving} {f : Frame} :
      m.pc k = .sending f gen r.gen → m.reader = some r →
      Step m (.write k r.gen f)
        { m.goto k (.written f gen) with wire := (r.gen, f) :: m.wire }
  | commitHalt {m : Machine} {k gen : Nat} : m.pc k = .written .halt gen →
      m.server.sameConnection gen = true →
      Step m (.commitHalt k) ((m.withServer m.server.haltCommit).goto k .idle)
  | commitResume {m : Machine} {k gen : Nat} : m.pc k = .written .resume gen →
      m.server.sameConnection gen = true →
      Step m (.commitResume k) ((m.withServer m.server.resumeCommit).goto k .committed)
  | stale {m : Machine} {k gen : Nat} {f : Frame} : m.pc k = .written f gen → f ≠ .configure →
      m.server.sameConnection gen = false → Step m (.stale k) (m.goto k .idle)
  | answered {m : Machine} {k gen : Nat} (reply : Reply) : m.pc k = .written .configure gen →
      Step m (.answered k reply)
        ((m.withServer (m.server.configureAnswered gen reply).1).goto k .idle)
  | acquire {m : Machine} {k : Nat} (insertedUs : Int) : m.pc k = .committed → m.lock = none →
      Step m (.acquire k insertedUs)
        { m.goto k (.clearing insertedUs resumeStages) with lock := some k }
  | clear {m : Machine} {k : Nat} {insertedUs : Int} {stage : ResumeStage}
      {rest : List ResumeStage} : m.pc k = .clearing insertedUs (stage :: rest) →
      Step m (.clear k stage)
        ((m.withDurable (Durable.resumeEffect insertedUs stage m.durable)).goto k
          (.clearing insertedUs rest))
  | clearRaises {m : Machine} {k : Nat} {insertedUs : Int} {stage : ResumeStage}
      {rest : List ResumeStage} : m.pc k = .clearing insertedUs (stage :: rest) →
      stage ≠ .disarm → Step m (.clearRaises k) { m.goto k .idle with lock := none }
  | done {m : Machine} {k : Nat} {insertedUs : Int} : m.pc k = .clearing insertedUs [] →
      Step m (.done k) { m.goto k .idle with lock := none }
  | sentinel {m : Machine} (s : Sentinel) :
      Step m (.sentinel s) (m.withDurable (withSentinel m.durable s))

/-- A server as its constructor leaves it over any store, and no caller. -/
def Starts (m : Machine) : Prop :=
  (∃ id, m.server = BridgeServer.new id) ∧ m.lock = none ∧ m.reader = none ∧
  (∀ k, m.pc k = .idle) ∧ m.wire = []

def system : System Machine Event where
  init := Starts
  step := Step

end Threads

end Hx.Harness
