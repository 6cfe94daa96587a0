import Hx.Library.Custody
import Hx.Library.Transition
import Mathlib.Logic.Function.Basic

/-!
# The capture queue

`offer` puts a record on a bounded queue and evicts the oldest where it is full; `loop` takes
records off and delivers them, and reports the drops; `stop` counts what is still queued and
`start` makes another drain. The queue, an `AtomicLong` and a volatile field are each read or
written in one step, and the call of a sink is a step of its own, so that every interleaving
of the threads is a run.

A record stands for one call of `offer`. A drain that outlives the join of `stop` goes on if
a later `start` sets `running` again, so there may be any number of them.
-/

namespace Hx.Proxy

open Hx.Library

inductive Source where
  | operator
  | crawler
  | unattributed
  deriving DecidableEq

/-- `Source.values()`. -/
def Source.values : List Source := [.operator, .crawler, .unattributed]

/-- `sourceName`, `none` where it answers null. -/
def sourceName : Source → Option String
  | .crawler => some "crawler"
  | .operator => some "operator"
  | .unattributed => none

structure Captured where
  id : Nat
  source : Source
  deriving DecidableEq

/-- What a call of the sink comes to. -/
inductive Answer where
  | yes
  | no
  | threw
  deriving DecidableEq

/-- A sink that throws has not told anybody. -/
def Answer.told : Answer → Bool
  | .yes => true
  | .no => false
  | .threw => false

namespace Capture

/-- Where a thread goes on after it has counted or reported. -/
inductive Next where
  | done
  | again (o : Captured)
  | locking
  | trying
  | looking
  | leaving

/-- What a thread does next. -/
inductive Pc where
  | idle
  /-- in `offer`: at `queue.offer`, at `queue.poll`, at the read of `accepting` -/
  | offering (o : Captured)
  | polling (o : Captured)
  | enqueued
  /-- in `discardQueued`, before `drainTo` -/
  | discarding (next : Next)
  /-- about to count records it took off the queue or never put there -/
  | counting (left : List Captured) (next : Next)
  /-- in `loop`: at the read of `running`, in `poll`, in `deliver`, at `reportLock.lock()` -/
  | looking
  | parked
  | delivering (o : Captured)
  | locking
  /-- in `reportOutstanding`, with the lock: before a source, in the sink -/
  | reporting (left : List Source) (next : Next)
  | asking (s : Source) (now : Nat) (left : List Source) (next : Next)
  /-- in `stop`, with the monitor: after each of its writes, and at `tryLock` -/
  | refusing
  | joining
  | trying
  | leaving
  /-- in `start`, with the monitor, after each of its writes -/
  | starting
  | running
  | finished

def Next.pc : Next → Pc
  | .done => .idle
  | .again o => .offering o
  | .locking => .locking
  | .trying => .trying
  | .looking => .looking
  | .leaving => .leaving

structure Machine where
  capacity : Nat
  queue : List Captured
  delivered : List Captured
  counted : List Captured
  dropped : Source → Nat
  lost : Source → Nat
  reported : Source → Nat
  accepting : Bool
  running : Bool
  drain : Option Nat
  monitor : Option Nat
  reportLock : Option Nat
  pc : Nat → Pc

/-! ## Where a record is -/

/-- In the sink, in the call of `offer` it was passed to, or on its way to be counted. -/
inductive Place where
  | delivered
  | counted
  | queue
  | drainer (t : Nat)
  | offering (t : Nat)
  | counting (t : Nat)

def Pc.inSink : Pc → List Captured
  | .delivering o => [o]
  | _ => []

def Next.inOffer : Next → List Captured
  | .again o => [o]
  | _ => []

def Pc.inOffer : Pc → List Captured
  | .offering o => [o]
  | .polling o => [o]
  | .discarding next => next.inOffer
  | .counting _ next => next.inOffer
  | .reporting _ next => next.inOffer
  | .asking _ _ _ next => next.inOffer
  | _ => []

def Pc.toCount : Pc → List Captured
  | .counting left _ => left
  | _ => []

/-- The thread is in `reportOutstanding`. -/
def Pc.reports : Pc → Bool
  | .reporting .. => true
  | .asking .. => true
  | _ => false

namespace Machine

def contents (m : Machine) : Place → List Captured
  | .delivered => m.delivered
  | .counted => m.counted
  | .queue => m.queue
  | .drainer t => (m.pc t).inSink
  | .offering t => (m.pc t).inOffer
  | .counting t => (m.pc t).toCount

def goto (m : Machine) (t : Nat) (p : Pc) : Machine := { m with pc := Function.update m.pc t p }

/-- `dropped[o.source().ordinal()].incrementAndGet()`. -/
def count (m : Machine) (o : Captured) : Machine :=
  { m with
    counted := o :: m.counted
    dropped := Function.update m.dropped o.source (m.dropped o.source + 1) }

/-- `countLost`. -/
def countLost (m : Machine) (s : Source) : Machine :=
  { m with
    dropped := Function.update m.dropped s (m.dropped s + 1)
    lost := Function.update m.lost s (m.lost s + 1) }

variable {m : Machine} {t u : Nat} {p : Pc}

@[simp] theorem goto_pc_self : (m.goto t p).pc t = p := Function.update_self ..

theorem goto_pc_of_ne (other : u ≠ t) : (m.goto t p).pc u = m.pc u := Function.update_of_ne other ..

end Machine

inductive Event where
  | offer (t : Nat) (o : Captured)
  | enqueue (t : Nat)
  | full (t : Nat)
  | evict (t : Nat)
  | raced (t : Nat)
  | readAccepting (t : Nat)
  | drainTo (t : Nat)
  | count (t : Nat)
  | counted (t : Nat)
  | countLost (s : Source)
  | readRunning (t : Nat)
  | take (t : Nat)
  | timeout (t : Nat)
  | interrupted (t : Nat)
  | deliver (t : Nat) (a : Answer)
  | lock (t : Nat)
  | settled (t : Nat)
  | ask (t : Nat) (s : Source) (n : Nat)
  | answer (t : Nat) (s : Source) (n : Nat) (a : Answer)
  | unlock (t : Nat)
  | stop (t : Nat)
  | stopRunning (t : Nat)
  | joined (t : Nat)
  | tryLock (t : Nat)
  | leave (t : Nat)
  | start (t : Nat)
  | startRunning (t : Nat)
  | spawn (t drain : Nat)

/-- A record on its way into the queue, or one more drop where its source has no spelling. -/
def offerTo (o : Captured) : Pc :=
  if (sourceName o.source).isNone then .counting [o] .done else .offering o

/-- Where a delivery leads. -/
def deliverTo (o : Captured) (a : Answer) : Pc :=
  if a.told then .locking else .counting [o] .locking

inductive Step : Machine → Event → Machine → Prop where
  | offer {m : Machine} {t : Nat} {o : Captured} : m.pc t = .idle → (∀ p, o ∉ m.contents p) →
      Step m (.offer t o) (m.goto t (offerTo o))
  | enqueue {m : Machine} {t : Nat} {o : Captured} : m.pc t = .offering o →
      m.queue.length < m.capacity →
      Step m (.enqueue t) ({ m with queue := m.queue ++ [o] }.goto t .enqueued)
  | full {m : Machine} {t : Nat} {o : Captured} : m.pc t = .offering o →
      m.capacity ≤ m.queue.length → Step m (.full t) (m.goto t (.polling o))
  | evict {m : Machine} {t : Nat} {o evicted : Captured} {rest : List Captured} :
      m.pc t = .polling o → m.queue = evicted :: rest →
      Step m (.evict t) ({ m with queue := rest }.goto t (.counting [evicted] (.again o)))
  | raced {m : Machine} {t : Nat} {o : Captured} : m.pc t = .polling o → m.queue = [] →
      Step m (.raced t) (m.goto t (.offering o))
  | readAccepting {m : Machine} {t : Nat} : m.pc t = .enqueued →
      Step m (.readAccepting t) (m.goto t (if m.accepting then .idle else .discarding .done))
  | drainTo {m : Machine} {t : Nat} {next : Next} : m.pc t = .discarding next →
      Step m (.drainTo t) ({ m with queue := [] }.goto t (.counting m.queue next))
  | count {m : Machine} {t : Nat} {o : Captured} {left : List Captured} {next : Next} :
      m.pc t = .counting (o :: left) next →
      Step m (.count t) ((m.count o).goto t (.counting left next))
  | counted {m : Machine} {t : Nat} {next : Next} : m.pc t = .counting [] next →
      Step m (.counted t) (m.goto t next.pc)
  | countLost {m : Machine} {s : Source} : Step m (.countLost s) (m.countLost s)
  | readRunning {m : Machine} {t : Nat} : m.pc t = .looking →
      Step m (.readRunning t) (m.goto t (if m.running then .parked else .finished))
  | take {m : Machine} {t : Nat} {o : Captured} {rest : List Captured} : m.pc t = .parked →
      m.queue = o :: rest → Step m (.take t) ({ m with queue := rest }.goto t (.delivering o))
  | timeout {m : Machine} {t : Nat} : m.pc t = .parked →
      Step m (.timeout t) (m.goto t .locking)
  | interrupted {m : Machine} {t : Nat} : m.pc t = .parked →
      Step m (.interrupted t) (m.goto t .finished)
  | deliver {m : Machine} {t : Nat} {o : Captured} {a : Answer} : m.pc t = .delivering o →
      Step m (.deliver t a)
        ({ m with delivered := if a.told then o :: m.delivered else m.delivered }.goto t
          (deliverTo o a))
  | lock {m : Machine} {t : Nat} : m.pc t = .locking → m.reportLock = none →
      Step m (.lock t) ({ m with reportLock := some t }.goto t (.reporting Source.values .looking))
  | settled {m : Machine} {t : Nat} {s : Source} {left : List Source} {next : Next} :
      m.pc t = .reporting (s :: left) next → m.dropped s = m.reported s →
      Step m (.settled t) (m.goto t (.reporting left next))
  | ask {m : Machine} {t : Nat} {s : Source} {left : List Source} {next : Next} :
      m.pc t = .reporting (s :: left) next → m.dropped s ≠ m.reported s →
      Step m (.ask t s (m.dropped s - m.reported s)) (m.goto t (.asking s (m.dropped s) left next))
  | answer {m : Machine} {t now : Nat} {s : Source} {left : List Source} {next : Next} {a : Answer} :
      m.pc t = .asking s now left next →
      Step m (.answer t s (now - m.reported s) a)
        ({ m with reported := if a.told then Function.update m.reported s now else m.reported }.goto
          t (.reporting left next))
  | unlock {m : Machine} {t : Nat} {next : Next} : m.pc t = .reporting [] next →
      Step m (.unlock t) ({ m with reportLock := none }.goto t next.pc)
  | stop {m : Machine} {t : Nat} : m.pc t = .idle → m.monitor = none →
      Step m (.stop t) ({ m with monitor := some t, accepting := false }.goto t .refusing)
  | stopRunning {m : Machine} {t : Nat} : m.pc t = .refusing →
      Step m (.stopRunning t) ({ m with running := false, drain := none }.goto t .joining)
  | joined {m : Machine} {t : Nat} : m.pc t = .joining →
      Step m (.joined t) (m.goto t (.discarding .trying))
  | tryLock {m : Machine} {t : Nat} : m.pc t = .trying →
      Step m (.tryLock t)
        (if m.reportLock = none then
          { m with reportLock := some t }.goto t (.reporting Source.values .leaving)
        else m.goto t .leaving)
  | leave {m : Machine} {t : Nat} : m.pc t = .leaving →
      Step m (.leave t) ({ m with monitor := none }.goto t .idle)
  | start {m : Machine} {t : Nat} : m.pc t = .idle → m.monitor = none →
      Step m (.start t)
        (if m.drain = none then
          { m with monitor := some t, accepting := true }.goto t .starting
        else m)
  | startRunning {m : Machine} {t : Nat} : m.pc t = .starting →
      Step m (.startRunning t) ({ m with running := true }.goto t .running)
  | spawn {m : Machine} {t drain : Nat} : m.pc t = .running → m.pc drain = .idle → drain ≠ t →
      Step m (.spawn t drain)
        (({ m with drain := some drain, monitor := none }.goto drain .looking).goto t .idle)

/-- A capture that has just been built. -/
def new (capacity : Nat) : Machine where
  capacity := capacity
  queue := []
  delivered := []
  counted := []
  dropped _ := 0
  lost _ := 0
  reported _ := 0
  accepting := true
  running := false
  drain := none
  monitor := none
  reportLock := none
  pc _ := .idle

/-- Any number of threads beside a capture of the given capacity. -/
def system (capacity : Nat) : System Machine Event where
  init m := m = new capacity
  step := Step

end Capture

end Hx.Proxy
