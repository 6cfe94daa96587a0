import Hx.Harness.Server
import Mathlib.Logic.Function.Basic

/-!
# Requests and replies

`_request` registers an event under a new number, writes a frame that carries the number,
waits, and collects. `_deliver` runs on the read thread: it stores a reply under its `id`
where that is still registered, and then sets the event. `_reset` sets every registered
event and forgets both tables.

A region under the mutex is one step, and so are the snapshot of the connection, the write
of the frame, the end of the wait and the `set` that follows a delivery. The tables are
functions of the number. A reply also carries the generation of the connection it came
over, which no step of the code reads.
-/

namespace Hx.Harness.Requests

open Hx.Library

/-- The `id` of a received header. The reader of frames lets no other type through. -/
inductive Id where
  | null
  | bool (b : Bool)
  | int (n : Int)
  | str (s : String)
  deriving DecidableEq

/-- The number an `id` equals as the key of a dict, where `True` is 1. -/
def Id.number : Id → Option Nat
  | .bool b => some (if b then 1 else 0)
  | .int n => if 0 ≤ n then some n.toNat else none
  | .null => none
  | .str _ => none

structure Reply where
  id : Id
  body : List UInt8
  via : Nat

/-- What a caller passes: the `t` of its header, and its timeout as the error shows it. -/
structure Call where
  t : String
  timeout : String

/-- What comes out of a call that does not return: a `BridgeError`, or what `codec.encode`
raised. -/
inductive Raised where
  | bridge (e : BridgeError)
  | encoding (text : String)

def Raised.isBridgeError : Raised → Bool
  | .bridge _ => true
  | .encoding _ => false

def notConnected : BridgeError := ⟨"not connected", some "bridge_lost"⟩

def sendFailed (text : String) : BridgeError := ⟨"send failed: " ++ text, some "bridge_lost"⟩

def noReply (c : Call) : BridgeError :=
  ⟨"no reply to " ++ c.t ++ " within " ++ c.timeout ++ "s", some "timeout"⟩

def disconnected (c : Call) : BridgeError :=
  ⟨"peer disconnected before replying to " ++ c.t, some "bridge_lost"⟩

/-- Where a call of `_request` stands. `conn` is the connection its snapshot found. -/
inductive Pc where
  | idle
  | registered (c : Call) (rid : Nat)
  | writing (c : Call) (rid conn : Nat)
  | waiting (c : Call) (rid conn : Nat)
  | woken (c : Call) (rid conn : Nat)
  | expired (c : Call) (rid conn : Nat)
  | returned (rid conn : Nat) (reply : Reply)
  | raised (rid : Nat) (e : Raised)

/-- The number a call took. -/
def Pc.rid : Pc → Option Nat
  | .idle => none
  | .registered _ rid => some rid
  | .writing _ rid _ => some rid
  | .waiting _ rid _ => some rid
  | .woken _ rid _ => some rid
  | .expired _ rid _ => some rid
  | .returned rid _ _ => some rid
  | .raised rid _ => some rid

/-- The connection a call writes to or has written to, while it is under way. -/
def Pc.conn : Pc → Option Nat
  | .writing _ _ conn => some conn
  | .waiting _ _ conn => some conn
  | .woken _ _ conn => some conn
  | .expired _ _ conn => some conn
  | _ => none

/-- The call has returned or raised. -/
def Pc.done : Pc → Bool
  | .returned .. => true
  | .raised .. => true
  | _ => false

/-- The read thread: between frames, between the two steps of a delivery, or on its way to
`_reset`. -/
inductive Phase where
  | reading
  | delivering (rid : Nat)
  | closing
  deriving DecidableEq

structure Reader where
  gen : Nat
  phase : Phase

structure Machine where
  server : BridgeServer
  reader : Option Reader
  nextId : Nat
  pending : Nat → Bool
  event : Nat → Bool
  replies : Nat → Option Reply
  pc : Nat → Pc

namespace Machine

/-- Caller `i` moves on. -/
def goto (m : Machine) (i : Nat) (p : Pc) : Machine := { m with pc := Function.update m.pc i p }

/-- `_pending.pop(rid, None)`. -/
def forget (m : Machine) (rid : Nat) : Machine :=
  { m with pending := Function.update m.pending rid false }

/-- `_replies.pop(rid)`. -/
def take (m : Machine) (rid : Nat) : Machine :=
  { m with replies := Function.update m.replies rid none }

/-- The first region of `_request`. -/
def register (m : Machine) (i : Nat) (c : Call) : Machine :=
  { m with
    nextId := m.nextId + 1
    pending := Function.update m.pending (m.nextId + 1) true
    event := Function.update m.event (m.nextId + 1) false
    pc := Function.update m.pc i (.registered c (m.nextId + 1)) }

/-- The region of `_deliver`: the tables it leaves, and whose event it goes on to set. -/
def deliver (m : Machine) (reply : Reply) : Machine × Option Nat :=
  match reply.id.number with
  | none => (m, none)
  | some rid =>
      if m.pending rid then
        ({ m with replies := Function.update m.replies rid (some reply) }, some rid)
      else (m, none)

/-- The region of `_reset`. -/
def reset (m : Machine) (gen : Nat) : Machine :=
  if gen ≠ m.server.generation then m
  else
    { m with
      server := m.server.reset gen
      event := fun rid => m.event rid || m.pending rid
      pending := fun _ => false
      replies := fun _ => none }

variable (m : Machine) (i rid : Nat) (p : Pc) (c : Call)

@[simp] theorem goto_pc_self : (m.goto i p).pc i = p := Function.update_self ..

@[simp] theorem forget_pending_self : (m.forget rid).pending rid = false := Function.update_self ..

@[simp] theorem take_replies_self : (m.take rid).replies rid = none := Function.update_self ..

@[simp] theorem register_pc_self : (m.register i c).pc i = .registered c (m.nextId + 1) :=
  Function.update_self ..

variable {m i rid p c} {j r : Nat}

theorem goto_pc_of_ne (other : j ≠ i) : (m.goto i p).pc j = m.pc j := Function.update_of_ne other ..

theorem forget_pending_of_ne (other : r ≠ rid) : (m.forget rid).pending r = m.pending r :=
  Function.update_of_ne other ..

theorem take_replies_of_ne (other : r ≠ rid) : (m.take rid).replies r = m.replies r :=
  Function.update_of_ne other ..

theorem register_pc_of_ne (other : j ≠ i) : (m.register i c).pc j = m.pc j :=
  Function.update_of_ne other ..

/-- A delivery stores a reply under its number if that is registered, and nothing else. -/
theorem deliver_cases (m : Machine) (reply : Reply) : m.deliver reply = (m, none) ∨
    ∃ rid, reply.id.number = some rid ∧ m.pending rid = true ∧ m.deliver reply =
      ({ m with replies := Function.update m.replies rid (some reply) }, some rid) := by
  rw [deliver]
  cases number : reply.id.number with
  | none => exact .inl rfl
  | some rid =>
      cases held : m.pending rid with
      | false => exact .inl (by simp only [held, Bool.false_eq_true, if_false])
      | true => exact .inr ⟨rid, rfl, held, by simp only [held, if_true]⟩

theorem register_pending_of_ne (other : r ≠ m.nextId + 1) :
    (m.register i c).pending r = m.pending r := Function.update_of_ne other ..

end Machine

inductive Event where
  | accept
  | register (i : Nat) (c : Call)
  | snapshot (i : Nat)
  | encodingFails (i : Nat) (text : String)
  | sendFails (i : Nat) (text : String)
  | sent (i : Nat)
  | wake (i : Nat)
  | expire (i : Nat)
  | collect (i : Nat)
  | giveUp (i : Nat)
  | receive (id : Id) (body : List UInt8)
  | set
  | close
  | reset

/-- What the snapshot of `_send` leads to. -/
def snapshotTo (c : Call) (rid : Nat) : Option Nat → Pc
  | none => .raised rid (.bridge notConnected)
  | some conn => .writing c rid conn

/-- What the last region of `_request` leads to. -/
def collectTo (c : Call) (rid conn : Nat) : Option Reply → Pc
  | none => .raised rid (.bridge (disconnected c))
  | some reply => .returned rid conn reply

/-- `wait` may time out although the event has just been set. -/
inductive Step : Machine → Event → Machine → Prop where
  | accept {m : Machine} : m.reader = none →
      Step m .accept
        { m with server := m.server.serve, reader := some ⟨m.server.serve.generation, .reading⟩ }
  | register {m : Machine} {i : Nat} {c : Call} : m.pc i = .idle →
      Step m (.register i c) (m.register i c)
  | snapshot {m : Machine} {i rid : Nat} {c : Call} : m.pc i = .registered c rid →
      Step m (.snapshot i) (m.goto i (snapshotTo c rid m.server.conn))
  | encodingFails {m : Machine} {i rid conn : Nat} {c : Call} {text : String} :
      m.pc i = .writing c rid conn →
      Step m (.encodingFails i text) (m.goto i (.raised rid (.encoding text)))
  | sendFails {m : Machine} {i rid conn : Nat} {c : Call} {text : String} :
      m.pc i = .writing c rid conn →
      Step m (.sendFails i text) (m.goto i (.raised rid (.bridge (sendFailed text))))
  | sent {m : Machine} {i rid conn : Nat} {c : Call} : m.pc i = .writing c rid conn →
      Step m (.sent i) (m.goto i (.waiting c rid conn))
  | wake {m : Machine} {i rid conn : Nat} {c : Call} : m.pc i = .waiting c rid conn →
      m.event rid = true → Step m (.wake i) (m.goto i (.woken c rid conn))
  | expire {m : Machine} {i rid conn : Nat} {c : Call} : m.pc i = .waiting c rid conn →
      Step m (.expire i) (m.goto i (.expired c rid conn))
  | collect {m : Machine} {i rid conn : Nat} {c : Call} : m.pc i = .woken c rid conn →
      Step m (.collect i)
        (((m.goto i (collectTo c rid conn (m.replies rid))).forget rid).take rid)
  | giveUp {m : Machine} {i rid conn : Nat} {c : Call} : m.pc i = .expired c rid conn →
      Step m (.giveUp i) ((m.goto i (.raised rid (.bridge (noReply c)))).forget rid)
  | receive {m : Machine} {gen : Nat} {id : Id} {body : List UInt8} :
      m.reader = some ⟨gen, .reading⟩ →
      Step m (.receive id body)
        { (m.deliver ⟨id, body, gen⟩).1 with
          reader := some ⟨gen, ((m.deliver ⟨id, body, gen⟩).2.map Phase.delivering).getD .reading⟩ }
  | set {m : Machine} {gen rid : Nat} : m.reader = some ⟨gen, .delivering rid⟩ →
      Step m .set
        { m with event := Function.update m.event rid true, reader := some ⟨gen, .reading⟩ }
  | close {m : Machine} {gen : Nat} : m.reader = some ⟨gen, .reading⟩ →
      Step m .close { m with reader := some ⟨gen, .closing⟩ }
  | reset {m : Machine} {gen : Nat} : m.reader = some ⟨gen, .closing⟩ →
      Step m .reset { m.reset gen with reader := none }

def start (engagementId : String) : Machine :=
  ⟨.new engagementId, none, 0, fun _ => false, fun _ => false, fun _ => none, fun _ => .idle⟩

/-- A server that has just been built, and any number of callers beside its read thread. -/
def bridge (engagementId : String) : System Machine Event where
  init m := m = start engagementId
  step := Step

end Hx.Harness.Requests
