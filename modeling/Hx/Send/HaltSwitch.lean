import Hx.Java.Text
import Hx.Library.Transition

/-!
# The halt switch and its sentinel poller

`HaltSwitch` combines `halt`/`resume` frames with a polled sentinel file. Every
write of its state happens under one monitor, so a write is one step; a look at
the sentinel, the clock reading that stamps it and the publication are three, and
other threads run between them. A poller that `stop` gave up on may still publish
a stamped look after a later `start`.

A poll outcome is what the two `readAttributes` calls answered. Only "the name is
absent and its parent is a directory" confirms an absence.
-/

namespace Hx.Send

open Hx.Java Hx.Library

/-- The constructor's arguments, with the check it makes on the interval. -/
structure HaltSwitch where
  sentinel : JString
  pollIntervalMs : Int64
  positive : 0 < pollIntervalMs

namespace HaltSwitch

/-- `STALE_INTERVALS`. -/
def staleIntervals : Int64 := 5

/-- `DEFAULT_POLL_MS`. -/
def defaultPollMs : Int64 := 500

/-- The limit on the age of the last completed poll, in `long` arithmetic. -/
def staleAfterUs (sw : HaltSwitch) : Int64 := sw.pollIntervalMs * 1000 * staleIntervals

/-- The record behind the one volatile reference. -/
structure State where
  frameHalted : Bool
  frameReason : Option JString
  sentinelHalted : Bool
  sentinelReason : Option JString
  armed : Bool
  lastPollUs : Int64

def State.initial : State := ⟨false, none, false, none, false, 0⟩

/-- A call of the injected clock: a time, or the text of what it threw. -/
abbrev Reading := Except JString Int64

/-- What asking about the sentinel's parent answered. -/
inductive Parent where
  | unresolvable (error : JString)
  | none
  | directory
  | notDirectory (parent : JString)
  | unreadable (parent error : JString)

/-- What reading the sentinel's attributes, links not followed, answered. The
parent is asked about only when the name is absent. -/
inductive Look where
  | present
  | noSuchFile (parent : Parent)
  | unreadable (error : JString)

/-- The reason to halt, or `none` when the parent is confirmed to be a directory. -/
def parentIsNotADirectory (sw : HaltSwitch) : Parent → Option JString
  | .unresolvable t =>
      some (js "halt sentinel's parent directory cannot be resolved, treating as halted: " ++
        sw.sentinel ++ js ": " ++ t)
  | .none =>
      some (js "halt sentinel has no parent directory to confirm, treating as halted: " ++
        sw.sentinel)
  | .directory => Option.none
  | .notDirectory parent =>
      some (js "halt sentinel's parent is not a directory, treating as halted: " ++ parent)
  | .unreadable parent t =>
      some (js "halt sentinel's parent directory is gone or unreadable, treating as halted: " ++
        parent ++ js ": " ++ t)

/-- The reason `pollOnce` publishes: present, unreadable or unconfirmed. `none` is
the one answer that does not halt. -/
def pollOnce (sw : HaltSwitch) : Look → Option JString
  | .present => some (js "halt sentinel present: " ++ sw.sentinel)
  | .noSuchFile parent => parentIsNotADirectory sw parent
  | .unreadable t =>
      some (js "halt sentinel unreadable, treating as halted: " ++ sw.sentinel ++ js ": " ++ t)

def publishAnswer (now : Int64) (present : Bool) (why : Option JString) (s : State) : State :=
  { s with sentinelHalted := present, sentinelReason := why, lastPollUs := now }

/-- A poll that did not complete: the stamp stays where the last answer put it. -/
def publishFailure (why : JString) (s : State) : State :=
  { s with sentinelHalted := true, sentinelReason := some why }

/-- The publication of one poll. `clock` was read after the look and before the
monitor was taken. -/
def pollNow (sw : HaltSwitch) (look : Look) (clock : Reading) (s : State) : State :=
  match clock with
  | .ok now => publishAnswer now (pollOnce sw look).isSome (pollOnce sw look) s
  | .error t => publishFailure (js "halt sentinel poll failed, treating as halted: " ++ t) s

/-- `start` when no live poller exists; the thread it also creates is in `Machine`. -/
def start (sw : HaltSwitch) (look : Look) (clock : Reading) (s : State) : State :=
  { pollNow sw look clock s with armed := true }

/-- `stop`: retires the staleness rule with the thread that fed it. -/
def stop (s : State) : State := { s with armed := false }

def haltedByFrame (reason : Option JString) (s : State) : State :=
  { s with
    frameHalted := true
    frameReason := some (match reason with
      | none => js "halted by frame, no reason given"
      | some r => if isBlank r then js "halted by frame, no reason given" else r) }

def resumedByFrame (s : State) : State := { s with frameHalted := false, frameReason := none }

/-- An unreadable clock is a poll age that cannot be computed. -/
def stale (sw : HaltSwitch) (s : State) (clock : Reading) : Bool :=
  s.armed && match clock with
    | .ok now => decide (sw.staleAfterUs < now - s.lastPollUs)
    | .error _ => true

def halted (sw : HaltSwitch) (s : State) (clock : Reading) : Bool :=
  s.frameHalted || s.sentinelHalted || stale sw s clock

def reason (sw : HaltSwitch) (s : State) (clock : Reading) : Option JString :=
  if s.frameHalted then s.frameReason
  else if s.sentinelHalted then s.sentinelReason
  else if stale sw s clock then
    some (js "halt sentinel poller stalled: no answer in the last " ++
      js (toString (sw.staleAfterUs / 1000)) ++ js "ms (poll interval " ++
      js (toString sw.pollIntervalMs) ++ js "ms)")
  else none

/-! ## Threads and interleavings -/

/-- Where a poller thread stands in `pollLoop`. -/
inductive Phase where
  | dead
  | asleep
  | polling
  | looked (look : Look)
  | stamped (look : Look) (clock : Reading)

/-- The switch, its poller reference, every thread ever created and the time. -/
structure Machine where
  state : State
  poller : Option Nat
  created : Nat
  phase : Nat → Phase
  now : Int64

/-- What can happen next. `startAgain` is the call that finds a live poller; `publish`
names the look and the stamp it publishes. -/
inductive Event where
  | tick (now : Int64)
  | haltFrame (reason : Option JString)
  | resumeFrame
  | start (look : Look) (clock : Reading)
  | startAgain
  | stop
  | wake (thread : Nat)
  | look (thread : Nat) (look : Look)
  | stamp (thread : Nat) (clock : Reading)
  | publish (thread : Nat) (look : Look) (clock : Reading)
  | exit (thread : Nat)

/-- The poller reference names a thread that is still alive. -/
def Machine.PollerAlive (m : Machine) : Prop := ∃ t, m.poller = some t ∧ m.phase t ≠ .dead

def Machine.setPhase (m : Machine) (t : Nat) (p : Phase) : Machine :=
  { m with phase := Function.update m.phase t p }

/-- A clock call at time `now`: the time itself, or an exception. -/
def ReadAt (now : Int64) (clock : Reading) : Prop := ∀ n, clock = .ok n → n = now

/-- One step of one thread. `start` holds the monitor throughout, its own look
included; `stop` gives it up before it joins, which changes nothing. -/
inductive Step (sw : HaltSwitch) : Machine → Event → Machine → Prop where
  | tick {m : Machine} {now : Int64} : m.now ≤ now → Step sw m (.tick now) { m with now := now }
  | haltFrame {m : Machine} {reason : Option JString} :
      Step sw m (.haltFrame reason) { m with state := haltedByFrame reason m.state }
  | resumeFrame {m : Machine} :
      Step sw m .resumeFrame { m with state := resumedByFrame m.state }
  | start {m : Machine} {look : Look} {clock : Reading} :
      ¬ m.PollerAlive → ReadAt m.now clock →
      Step sw m (.start look clock)
        { m with
          state := HaltSwitch.start sw look clock m.state
          poller := some m.created
          created := m.created + 1
          phase := Function.update m.phase m.created .asleep }
  | startAgain {m : Machine} : m.PollerAlive → Step sw m .startAgain m
  | stop {m : Machine} :
      Step sw m .stop { m with state := HaltSwitch.stop m.state, poller := none }
  | wake {m : Machine} {t : Nat} : m.phase t = .asleep → m.poller = some t →
      Step sw m (.wake t) (m.setPhase t .polling)
  | look {m : Machine} {t : Nat} {look : Look} : m.phase t = .polling →
      Step sw m (.look t look) (m.setPhase t (.looked look))
  | stamp {m : Machine} {t : Nat} {look : Look} {clock : Reading} :
      m.phase t = .looked look → ReadAt m.now clock →
      Step sw m (.stamp t clock) (m.setPhase t (.stamped look clock))
  | publish {m : Machine} {t : Nat} {look : Look} {clock : Reading} :
      m.phase t = .stamped look clock →
      Step sw m (.publish t look clock)
        { m.setPhase t .asleep with state := pollNow sw look clock m.state }
  | exit {m : Machine} {t : Nat} : Step sw m (.exit t) (m.setPhase t .dead)

/-- A new switch: no poller, no thread, and a clock counting from the epoch. -/
def Starts (m : Machine) : Prop :=
  m.state = .initial ∧ m.poller = none ∧ (∀ t, m.phase t = .dead) ∧ 0 ≤ m.now

def system (sw : HaltSwitch) : System Machine Event where
  init := Starts
  step := Step sw

/-! ## What a history says -/

/-- The last of the `halt` and `resume` frames was a `halt`. -/
def lastFrameHalts : List Event → Bool
  | [] => false
  | .haltFrame _ :: _ => true
  | .resumeFrame :: _ => false
  | _ :: past => lastFrameHalts past

/-- The last published poll: what it saw and the clock reading it was stamped with. -/
def lastPoll : List Event → Option (Look × Reading)
  | [] => none
  | .start look clock :: _ => some (look, clock)
  | .publish _ look clock :: _ => some (look, clock)
  | _ :: past => lastPoll past

/-- `start` came after the last `stop`. -/
def armedBy : List Event → Bool
  | [] => false
  | .start _ _ :: _ => true
  | .stop :: _ => false
  | _ :: past => armedBy past

/-- A poll that completed and saw an absence it could confirm. -/
inductive ConfirmedAbsent : Look × Reading → Prop where
  | intro (now : Int64) : ConfirmedAbsent (.noSuchFile .directory, .ok now)

/-- The sentinel halts: the last published poll is anything but a confirmed absence. -/
def SentinelHalts (past : List Event) : Prop :=
  ∃ poll, lastPoll past = some poll ∧ ¬ ConfirmedAbsent poll

/-- The last poll carries a stamp older than the limit at time `now`, as whole
numbers. -/
def PollOlder (sw : HaltSwitch) (past : List Event) (now : Int64) : Prop :=
  ∃ look stamp, lastPoll past = some (look, .ok stamp) ∧
    sw.staleAfterUs.toInt < now.toInt - stamp.toInt

/-! ## The switch agrees with its history -/

variable {sw : HaltSwitch}

@[simp] theorem pollNow_frameHalted (look : Look) (clock : Reading) (s : State) :
    (pollNow sw look clock s).frameHalted = s.frameHalted := by
  cases clock <;> rfl

@[simp] theorem pollNow_frameReason (look : Look) (clock : Reading) (s : State) :
    (pollNow sw look clock s).frameReason = s.frameReason := by
  cases clock <;> rfl

@[simp] theorem pollNow_armed (look : Look) (clock : Reading) (s : State) :
    (pollNow sw look clock s).armed = s.armed := by
  cases clock <;> rfl

/-- Only a confirmed absence publishes no halt. -/
theorem pollNow_sentinelHalted (look : Look) (clock : Reading) (s : State) :
    (pollNow sw look clock s).sentinelHalted = true ↔ ¬ ConfirmedAbsent (look, clock) := by
  constructor
  · rintro halted ⟨now⟩
    simp [pollNow, publishAnswer, pollOnce, parentIsNotADirectory] at halted
  · intro unconfirmed
    cases clock with
    | error t => rfl
    | ok now =>
        cases look with
        | present => rfl
        | unreadable t => rfl
        | noSuchFile parent =>
            cases parent with
            | directory => exact absurd (.intro now) unconfirmed
            | _ => rfl

/-- A reason is published exactly with a halt. -/
theorem pollNow_sentinelReason (look : Look) (clock : Reading) (s : State) :
    (pollNow sw look clock s).sentinelReason.isSome = (pollNow sw look clock s).sentinelHalted := by
  cases clock <;> rfl

/-- A poll leaves the stamp alone unless it read the clock. -/
theorem pollNow_lastPollUs (look : Look) (clock : Reading) (s : State) :
    (pollNow sw look clock s).lastPollUs = match clock with
      | .ok now => now
      | .error _ => s.lastPollUs := by
  cases clock <;> rfl

theorem readAt_bounds {now n : Int64} (read : ReadAt now (.ok n)) (later : 0 ≤ now) :
    0 ≤ n ∧ n ≤ now := by
  obtain rfl := read n rfl
  exact ⟨later, Int64.le_refl n⟩

/-- What every run keeps between its history and the machine. The time bounds make
the subtraction in `stale` a subtraction of whole numbers. -/
structure Agrees (past : List Event) (m : Machine) : Prop where
  frame : m.state.frameHalted = lastFrameHalts past
  sentinel : m.state.sentinelHalted = true ↔ SentinelHalts past
  armed : m.state.armed = armedBy past
  polled : armedBy past = true → (lastPoll past).isSome
  stamp : ∀ look n, lastPoll past = some (look, .ok n) → m.state.lastPollUs = n
  lastPoll_nonneg : 0 ≤ m.state.lastPollUs
  lastPoll_le : m.state.lastPollUs ≤ m.now
  inFlight : ∀ t look n, m.phase t = .stamped look (.ok n) → 0 ≤ n ∧ n ≤ m.now
  now_nonneg : 0 ≤ m.now

theorem Agrees.start {m : Machine} (h : Starts m) : Agrees [] m where
  frame := by rw [h.1]; rfl
  sentinel := by
    rw [h.1]
    exact ⟨fun halted => (Bool.false_ne_true halted).elim, fun ⟨_, polled, _⟩ => nomatch polled⟩
  armed := by rw [h.1]; rfl
  polled := fun armed => nomatch armed
  stamp := fun _ _ polled => nomatch polled
  lastPoll_nonneg := by rw [h.1]; exact Int64.le_refl 0
  lastPoll_le := by rw [h.1]; exact h.2.2.2
  inFlight := fun t look n stamped => by rw [h.2.2.1 t] at stamped; cases stamped
  now_nonneg := h.2.2.2

/-- A thread that moves to a phase without a stamp leaves every bound standing. -/
theorem inFlight_update {m : Machine} {now : Int64} {t : Nat} {p : Phase}
    (bounds : ∀ u look n, m.phase u = .stamped look (.ok n) → 0 ≤ n ∧ n ≤ now)
    (unstamped : ∀ look n, p ≠ .stamped look (.ok n)) (u : Nat) (look : Look) (n : Int64)
    (stamped : Function.update m.phase t p u = .stamped look (.ok n)) : 0 ≤ n ∧ n ≤ now := by
  by_cases same : u = t
  · subst same
    rw [Function.update_self] at stamped
    exact absurd stamped (unstamped look n)
  · rw [Function.update_of_ne same] at stamped
    exact bounds u look n stamped

/-- A publication whose stamp is in bounds makes the poll it publishes the last one. -/
theorem Agrees.published {past next : List Event} {m : Machine} {look : Look} {clock : Reading}
    (sw : HaltSwitch) (h : Agrees past m) (bounds : ∀ n, clock = .ok n → 0 ≤ n ∧ n ≤ m.now)
    (last : lastPoll next = some (look, clock)) :
    ((pollNow sw look clock m.state).sentinelHalted = true ↔ SentinelHalts next) ∧
    (∀ seen n, lastPoll next = some (seen, .ok n) →
      (pollNow sw look clock m.state).lastPollUs = n) ∧
    0 ≤ (pollNow sw look clock m.state).lastPollUs ∧
    (pollNow sw look clock m.state).lastPollUs ≤ m.now := by
  refine ⟨?_, ?_, ?_⟩
  · rw [pollNow_sentinelHalted, SentinelHalts, last]
    exact ⟨fun unconfirmed => ⟨_, rfl, unconfirmed⟩,
      fun ⟨_, same, unconfirmed⟩ => Option.some.inj same ▸ unconfirmed⟩
  · intro seen n same
    obtain ⟨rfl, rfl⟩ := Prod.mk.inj (Option.some.inj (last.symm.trans same))
    rw [pollNow_lastPollUs]
  · rw [pollNow_lastPollUs]
    cases clock with
    | ok n => exact bounds n rfl
    | error t => exact ⟨h.lastPoll_nonneg, h.lastPoll_le⟩

/-- One step keeps the agreement. -/
theorem Agrees.step {past : List Event} {m m' : Machine} {e : Event}
    (h : Agrees past m) (st : Step sw m e m') : Agrees (e :: past) m' := by
  cases st with
  | tick later =>
      exact { h with
        lastPoll_le := Int64.le_trans h.lastPoll_le later
        inFlight := fun t look n stamped =>
          ⟨(h.inFlight t look n stamped).1, Int64.le_trans (h.inFlight t look n stamped).2 later⟩
        now_nonneg := Int64.le_trans h.now_nonneg later }
  | haltFrame => exact { h with frame := rfl }
  | resumeFrame => exact { h with frame := rfl }
  | @start look clock fresh read =>
      have last : lastPoll (.start look clock :: past) = some (look, clock) := rfl
      obtain ⟨sentinel, stamp, nonneg, le⟩ :=
        h.published sw (fun n ok => readAt_bounds (ok ▸ read) h.now_nonneg) last
      exact {
        frame := (pollNow_frameHalted look clock m.state).trans h.frame
        sentinel := sentinel
        armed := rfl
        polled := fun _ => rfl
        stamp := stamp
        lastPoll_nonneg := nonneg
        lastPoll_le := le
        inFlight := inFlight_update h.inFlight (fun _ _ => nofun)
        now_nonneg := h.now_nonneg }
  | startAgain => exact { h with }
  | stop => exact { h with armed := rfl, polled := nofun }
  | wake => exact { h with inFlight := inFlight_update h.inFlight (fun _ _ => nofun) }
  | look => exact { h with inFlight := inFlight_update h.inFlight (fun _ _ => nofun) }
  | @stamp t look clock looked read =>
      refine { h with inFlight := ?_ }
      intro u seen n stamped
      by_cases same : u = t
      · subst same
        simp only [Machine.setPhase, Function.update_self, Phase.stamped.injEq] at stamped
        exact readAt_bounds (stamped.2 ▸ read) h.now_nonneg
      · simp only [Machine.setPhase, Function.update_of_ne same] at stamped
        exact h.inFlight u seen n stamped
  | @publish t look clock stamped =>
      have last : lastPoll (.publish t look clock :: past) = some (look, clock) := rfl
      obtain ⟨sentinel, stamp, nonneg, le⟩ :=
        h.published sw (fun n ok => h.inFlight t look n (ok ▸ stamped)) last
      exact {
        frame := (pollNow_frameHalted look clock m.state).trans h.frame
        sentinel := sentinel
        armed := (pollNow_armed look clock m.state).trans h.armed
        polled := fun _ => rfl
        stamp := stamp
        lastPoll_nonneg := nonneg
        lastPoll_le := le
        inFlight := inFlight_update h.inFlight (fun _ _ => nofun)
        now_nonneg := h.now_nonneg }
  | exit => exact { h with inFlight := inFlight_update h.inFlight (fun _ _ => nofun) }

theorem agrees {past : List Event} {m : Machine} (run : (system sw).History past m) :
    Agrees past m :=
  run.invariant (fun _ starts => .start starts) fun _ _ _ _ _ held st => held.step st

/-- Between times of one run the `long` subtraction does not wrap. -/
theorem stale_iff {past : List Event} {m : Machine} {now : Int64} (h : Agrees past m)
    (later : m.now ≤ now) :
    stale sw m.state (.ok now) = true ↔ m.state.armed = true ∧
      sw.staleAfterUs.toInt < now.toInt - m.state.lastPollUs.toInt := by
  rw [stale, Bool.and_eq_true, decide_eq_true_iff, Int64.lt_iff_toInt_lt,
    Int64.toInt_sub_of_le now m.state.lastPollUs h.lastPoll_nonneg
      (Int64.le_trans h.lastPoll_le later)]

/-- The three sources of a halt. `now` is when `halted` reads the clock, at or after
the moment its state reference was read. -/
theorem halted_iff {past : List Event} {m : Machine} {now : Int64} (h : Agrees past m)
    (later : m.now ≤ now) :
    halted sw m.state (.ok now) = true ↔
      lastFrameHalts past = true ∨ SentinelHalts past ∨
      (armedBy past = true ∧ PollOlder sw past now) := by
  rw [halted, Bool.or_eq_true, Bool.or_eq_true, h.frame, h.sentinel, stale_iff h later,
    h.armed, or_assoc]
  refine or_congr_right (or_congr_right' fun unhalted => and_congr_right fun armed => ?_)
  -- An armed switch has polled, and a poll that does not halt was stamped.
  obtain ⟨⟨look, clock⟩, polled⟩ := Option.isSome_iff_exists.1 (h.polled armed)
  have confirmed : ConfirmedAbsent (look, clock) :=
    not_not.1 fun unconfirmed => unhalted ⟨_, polled, unconfirmed⟩
  cases confirmed with
  | intro stamp =>
      rw [h.stamp _ stamp polled]
      constructor
      · intro old
        exact ⟨_, stamp, polled, old⟩
      · rintro ⟨look', stamp', same, old⟩
        obtain ⟨-, stamps⟩ := Prod.mk.inj (Option.some.inj (polled.symm.trans same))
        exact Except.ok.inj stamps ▸ old

/-- After `stop` only the two sources with a published answer count. -/
theorem halted_stop_iff {past : List Event} {m : Machine} (h : Agrees past m) (clock : Reading) :
    halted sw (HaltSwitch.stop m.state) clock = true ↔
      lastFrameHalts past = true ∨ SentinelHalts past := by
  have disarmed : stale sw (HaltSwitch.stop m.state) clock = false := rfl
  rw [halted, disarmed, Bool.or_false, Bool.or_eq_true]
  exact or_congr (by rw [← h.frame]; rfl) h.sentinel

/-- A switch over whole runs: what halts it, that `resume` leaves a sentinel halt in
force, and that `stop` drops nothing but the staleness rule. -/
theorem halted_over_runs {past : List Event} {m : Machine} {now : Int64}
    (run : (system sw).History past m) (later : m.now ≤ now) :
    (halted sw m.state (.ok now) = true ↔
      lastFrameHalts past = true ∨ SentinelHalts past ∨
      (armedBy past = true ∧ PollOlder sw past now)) ∧
    (∀ m', Step sw m .resumeFrame m' → SentinelHalts past →
      ∀ clock, halted sw m'.state clock = true) ∧
    (∀ m', Step sw m .stop m' →
      ∀ clock, halted sw m'.state clock = true ↔
        lastFrameHalts past = true ∨ SentinelHalts past) := by
  have agreed := agrees run
  refine ⟨halted_iff agreed later, ?_, ?_⟩
  · intro m' resume inForce clock
    cases resume
    have kept : m.state.sentinelHalted = true := agreed.sentinel.2 inForce
    simp only [halted, resumedByFrame, kept, Bool.or_true, Bool.true_or]
  · intro m' stopped clock
    cases stopped
    exact halted_stop_iff agreed clock

/-- The switch `HxExtension` builds, over an engagement root. -/
def production : HaltSwitch := ⟨js "/srv/engagement/HALTED", defaultPollMs, by decide⟩

/-- A started switch whose poller has not answered for three seconds. -/
def stalled : Machine where
  state := ⟨false, none, false, none, true, 0⟩
  poller := some 0
  created := 1
  phase := Function.update (fun _ => .dead) 0 .asleep
  now := 3000000

theorem stalled_run : (system production).History
    [.tick 3000000, .start (.noSuchFile .directory) (.ok 0)] stalled := by
  have first : (system production).History []
      ⟨.initial, none, 0, fun _ => .dead, 0⟩ := .start ⟨rfl, rfl, fun _ => rfl, by decide⟩
  have idle : ¬ Machine.PollerAlive ⟨.initial, none, 0, fun _ => .dead, 0⟩ := by
    rintro ⟨t, running, -⟩
    cases running
  have read : ReadAt 0 (.ok 0) := fun n ok => (Except.ok.inj ok).symm
  have later : (0 : Int64) ≤ 3000000 := by decide
  exact (first.step (.start idle read)).step (.tick later)

theorem halted_over_runs_stalled :
    (stalled.now ≤ 3000000) ∧
    (halted production stalled.state (.ok 3000000) = true ↔
      lastFrameHalts [.tick 3000000, .start (.noSuchFile .directory) (.ok 0)] = true ∨
      SentinelHalts [.tick 3000000, .start (.noSuchFile .directory) (.ok 0)] ∨
      (armedBy [.tick 3000000, .start (.noSuchFile .directory) (.ok 0)] = true ∧
        PollOlder production [.tick 3000000, .start (.noSuchFile .directory) (.ok 0)]
          3000000)) :=
  ⟨by decide, (halted_over_runs stalled_run (by decide)).1⟩

/-- `stop` lifts a halt that rests on staleness alone. -/
theorem stop_lifts_staleness :
    ¬ ∀ past m m', (system production).History past m → Step production m .stop m' →
      halted production m.state (.ok m.now) = true →
      halted production m'.state (.ok m'.now) = true := by
  intro kept
  have halts : halted production stalled.state (.ok stalled.now) = true := by decide
  exact absurd (kept _ _ _ stalled_run .stop halts) (by decide)

/-! ## Coherence of the two answers -/

/-- One state reference never pairs a reason with a cleared source. -/
structure Coherent (s : State) : Prop where
  frame : s.frameReason.isSome = s.frameHalted
  sentinel : s.sentinelReason.isSome = s.sentinelHalted

theorem Coherent.pollNow {s : State} (h : Coherent s) (look : Look) (clock : Reading) :
    Coherent (pollNow sw look clock s) where
  frame := by rw [pollNow_frameReason, pollNow_frameHalted, h.frame]
  sentinel := pollNow_sentinelReason look clock s

theorem coherent {m : Machine} (reached : (system sw).Reachable m) : Coherent m.state := by
  have base : ∀ m, Starts m → Coherent m.state := by
    intro m starts
    rw [starts.1]
    exact ⟨rfl, rfl⟩
  have keep : ∀ m e m', Coherent m.state → Step sw m e m' → Coherent m'.state := by
    intro m e m' held st
    cases st with
    | haltFrame => exact ⟨rfl, held.sentinel⟩
    | resumeFrame => exact ⟨rfl, held.sentinel⟩
    | start => exact ⟨(held.pollNow _ _).frame, (held.pollNow _ _).sentinel⟩
    | stop => exact ⟨held.frame, held.sentinel⟩
    | publish => exact held.pollNow _ _
    | _ => exact held
  exact reached.invariant base keep

/-- Read from one state and one clock call, a reason is given exactly for a halt. -/
theorem reason_isSome {m : Machine} (reached : (system sw).Reachable m) (clock : Reading) :
    (reason sw m.state clock).isSome = halted sw m.state clock := by
  obtain ⟨frame, sentinel⟩ := coherent reached
  unfold reason halted
  cases hf : m.state.frameHalted with
  | true => simp only [if_true, frame, hf, Bool.true_or]
  | false =>
      cases hs : m.state.sentinelHalted with
      | true => simp [sentinel, hs]
      | false => cases stale sw m.state clock <;> simp

end HaltSwitch

end Hx.Send
