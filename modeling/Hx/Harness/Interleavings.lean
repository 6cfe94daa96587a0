import Hx.Harness.Threads

/-!
# Halt order over all interleavings

Two results about runs of `Threads`. A configure frame written once the handshake
of its connection is over follows the re-asserted halt frame. A halt frame that is
the last one on the wire stands beside a durable halt, as long as no `resume`
clears the durable halt after a later call has armed it again.
-/

namespace Hx.Harness.Threads

open Hx.Library OperatorHalt

/-! ## Re-assertion before scope -/

/-- The operator halt was set when the current connection was accepted, and nothing
since has cleared a half of it. -/
def HeldSince : List Event → Bool
  | [] => false
  | .accept halted :: _ => halted
  | .clear _ .disarm :: _ => false
  | .clear _ .unlink :: _ => false
  | .sentinel .absent :: _ => false
  | _ :: past => HeldSince past

/-- The steps in which no configure frame overtakes the handshake: the connection it
is written on has been greeted and its halt look is over. -/
def Settled (m : Machine) : Event → Prop
  | .write _ conn .configure =>
      ∃ r, m.reader = some r ∧ r.gen = conn ∧ r.greeted = true
  | _ => True

/-- What a run keeps for the connection being served: a halt that is held is set, one
half of it at least is the file once the flag was found clear, and a greeted
connection has its halt frame. -/
structure Asserted (past : List Event) (m : Machine) : Prop where
  held : HeldSince past = true → m.durable.halted = true
  unarmed : ∀ r, m.reader = some r → r.phase = .unarmed → HeldSince past = true →
    sentinelPresent m.durable.disk = true
  reasserted : ∀ r, m.reader = some r → r.phase = .reasserted → (r.gen, .halt) ∈ m.wire
  greeted : ∀ r, m.reader = some r → r.greeted = true → HeldSince past = true →
    (r.gen, .halt) ∈ m.wire

/-- The halt, seen from the two halves. -/
theorem sentinelPresent_of_disarmed {d : Durable} (halted : d.halted = true)
    (disarmed : ¬ d.operator.armed = true) : sentinelPresent d.disk = true := by
  rw [Durable.halted, OperatorHalt.halted, Bool.or_eq_true] at halted
  exact halted.resolve_left disarmed

theorem halted_of_sentinelPresent {d : Durable} (present : sentinelPresent d.disk = true) :
    d.halted = true := by
  rw [Durable.halted, OperatorHalt.halted, present, Bool.or_true]

theorem sentinelPresent_withSentinel {d : Durable} {s : Sentinel} (kept : s ≠ .absent) :
    sentinelPresent (withSentinel d s).disk = true := by
  cases s with
  | absent => exact absurd rfl kept
  | present text => rfl
  | unreadable => rfl

theorem Asserted.start {m : Machine} (starts : Starts m) : Asserted [] m where
  held := nofun
  unarmed := fun _ _ _ => nofun
  reasserted := fun r serving => by rw [starts.2.2.1] at serving; cases serving
  greeted := fun _ _ _ => nofun

/-- A step of a caller that leaves the halt, the read thread and the history's answer
alone, and only adds to the wire. -/
theorem Asserted.caller {past next : List Event} {m m' : Machine} (h : Asserted past m)
    (same : HeldSince next = HeldSince past) (reader : m'.reader = m.reader)
    (halted : m.durable.halted = true → m'.durable.halted = true)
    (present : sentinelPresent m.durable.disk = true → sentinelPresent m'.durable.disk = true)
    (wire : ∀ entry ∈ m.wire, entry ∈ m'.wire) : Asserted next m' where
  held := fun held => halted (h.held (same ▸ held))
  unarmed := fun r serving phase held =>
    present (h.unarmed r (reader ▸ serving) phase (same ▸ held))
  reasserted := fun r serving phase => wire _ (h.reasserted r (reader ▸ serving) phase)
  greeted := fun r serving greeted held =>
    wire _ (h.greeted r (reader ▸ serving) greeted (same ▸ held))

/-- A step of the read thread that moves between phases without a look or a frame. -/
theorem Asserted.reader {past next : List Event} {m m' : Machine} {r r' : Serving}
    (h : Asserted past m) (same : HeldSince next = HeldSince past)
    (before : m.reader = some r) (after : m'.reader = some r') (gen : r'.gen = r.gen)
    (greeting : r'.greeted = r.greeted) (unlooked : r'.phase ≠ .unarmed ∧ r'.phase ≠ .reasserted)
    (durable : m'.durable = m.durable) (wire : m'.wire = m.wire) : Asserted next m' where
  held := fun held => durable ▸ h.held (same ▸ held)
  unarmed := fun s serving phase => by
    obtain rfl := Option.some.inj (after.symm.trans serving)
    exact absurd phase unlooked.1
  reasserted := fun s serving phase => by
    obtain rfl := Option.some.inj (after.symm.trans serving)
    exact absurd phase unlooked.2
  greeted := fun s serving greeted held => by
    obtain rfl := Option.some.inj (after.symm.trans serving)
    rw [gen, wire]
    exact h.greeted r before (greeting ▸ greeted) (same ▸ held)

/-- A clearing step ends what the history holds. -/
theorem Asserted.cleared {past next : List Event} {m m' : Machine} (h : Asserted past m)
    (ended : HeldSince next = false) (reader : m'.reader = m.reader)
    (wire : m'.wire = m.wire) : Asserted next m' where
  held := fun held => absurd (ended.symm.trans held) Bool.false_ne_true
  unarmed := fun _ _ _ held => absurd (ended.symm.trans held) Bool.false_ne_true
  reasserted := fun r serving phase => wire ▸ h.reasserted r (reader ▸ serving) phase
  greeted := fun _ _ _ held => absurd (ended.symm.trans held) Bool.false_ne_true

theorem Phase.after_looks (next : Next) :
    Phase.after next ≠ .unarmed ∧ Phase.after next ≠ .reasserted := by
  cases next <;> exact ⟨nofun, nofun⟩

/-- One step keeps it, whatever the caller threads do. -/
theorem Asserted.step {past : List Event} {m m' : Machine} {e : Event}
    (h : Asserted past m) (st : Step m e m') : Asserted (e :: past) m' := by
  cases st with
  | accept idle =>
      exact {
        held := fun held => held
        unarmed := fun r serving phase => by
          obtain rfl := Option.some.inj serving
          cases phase
        reasserted := fun r serving phase => by
          obtain rfl := Option.some.inj serving
          cases phase
        greeted := fun r serving greeted => by
          obtain rfl := Option.some.inj serving
          cases greeted }
  | receive f serving phase =>
      exact h.reader rfl serving rfl rfl rfl (Phase.after_looks _) rfl rfl
  | @lookArmed r serving phase =>
      by_cases armed : m.durable.operator.armed = true
      · rw [if_pos armed]
        exact h.reader rfl serving rfl rfl rfl ⟨nofun, nofun⟩ rfl rfl
      · rw [if_neg armed]
        exact {
          held := h.held
          unarmed := fun _ _ _ held => sentinelPresent_of_disarmed (h.held held) armed
          reasserted := fun s after looked => by
            obtain rfl := Option.some.inj after
            cases looked
          greeted := fun s after greeted held => by
            obtain rfl := Option.some.inj after
            exact h.greeted r serving greeted held }
  | @lookFile r serving phase =>
      by_cases present : sentinelPresent m.durable.disk = true
      · rw [if_pos present]
        exact h.reader rfl serving rfl rfl rfl ⟨nofun, nofun⟩ rfl rfl
      · -- Neither half was seen, so the history does not hold a halt.
        have free : HeldSince (.lookFile :: past) = false :=
          Bool.eq_false_iff.2 fun held => present (h.unarmed r serving phase held)
        rw [if_neg present]
        exact {
          held := h.held
          unarmed := fun _ _ _ held => absurd (free.symm.trans held) Bool.false_ne_true
          reasserted := fun s after looked => by
            obtain rfl := Option.some.inj after
            cases looked
          greeted := fun _ _ _ held => absurd (free.symm.trans held) Bool.false_ne_true }
  | @reassert r serving phase connected =>
      exact {
        held := h.held
        unarmed := fun s after looked => by
          obtain rfl := Option.some.inj after
          cases looked
        reasserted := fun s after _ => by
          obtain rfl := Option.some.inj after
          exact List.mem_cons_self
        greeted := fun s after _ _ => by
          obtain rfl := Option.some.inj after
          exact List.mem_cons_self }
  | reassertFails serving phase =>
      exact h.reader rfl serving rfl rfl rfl ⟨nofun, nofun⟩ rfl rfl
  | @reassertCommit r serving phase =>
      exact {
        held := h.held
        unarmed := fun s after looked => by
          obtain rfl := Option.some.inj after
          cases looked
        reasserted := fun s after looked => by
          obtain rfl := Option.some.inj after
          cases looked
        greeted := fun s after _ _ => by
          obtain rfl := Option.some.inj after
          exact h.reasserted r serving phase }
  | callback raises serving phase =>
      refine h.reader rfl serving rfl rfl rfl ?_ rfl rfl
      cases raises <;> exact ⟨nofun, nofun⟩
  | drop serving phase => exact h.reader rfl serving rfl rfl rfl ⟨nofun, nofun⟩ rfl rfl
  | reset serving phase => exact h.reader rfl serving rfl rfl rfl ⟨nofun, nofun⟩ rfl rfl
  | closed serving phase =>
      exact { held := h.held, unarmed := nofun, reasserted := nofun, greeted := nofun }
  | @stage k c stage rest pc =>
      exact h.caller rfl rfl (Durable.halted_haltEffect c stage)
        (Durable.sentinelPresent_haltEffect c stage) fun _ old => old
  | write pc serving => exact h.caller rfl rfl id id fun _ old => List.mem_cons_of_mem _ old
  | @clear k insertedUs stage rest pc =>
      cases stage with
      | insert => exact h.caller rfl rfl id id fun _ old => old
      | disarm => exact h.cleared rfl rfl rfl
      | unlink => exact h.cleared rfl rfl rfl
  | sentinel s =>
      by_cases removed : s = .absent
      · subst removed
        exact h.cleared rfl rfl rfl
      · have present := sentinelPresent_withSentinel (d := m.durable) removed
        have same : HeldSince (.sentinel s :: past) = HeldSince past := by
          cases s with
          | absent => exact absurd rfl removed
          | _ => rfl
        exact h.caller same rfl (fun _ => halted_of_sentinelPresent present) (fun _ => present)
          fun _ old => old
  | _ => exact h.caller rfl rfl id id fun _ old => old

theorem asserted {past : List Event} {m : Machine} (run : system.History past m) :
    Asserted past m :=
  run.invariant (fun _ starts => .start starts) fun _ _ _ _ _ held st => held.step st

/-- A session before its first connection, over a store an operator has halted. -/
def haltedStore : Machine where
  station :=
    { durable := .openedOn ⟨"/srv/engagement", "e-1", true, some "stop"⟩ (.present (some "stop"))
        [⟨"e-1", 1, actor, haltTool, "stop"⟩]
      server := .new "e-1" }
  lock := none
  reader := none
  pc := fun _ => .idle
  wire := []

def greeting : Incoming := ⟨some protocolVersion, .hello (some "e-1")⟩

theorem haltedStore_starts : Starts haltedStore :=
  ⟨⟨"e-1", rfl⟩, rfl, rfl, fun _ => rfl, rfl⟩

/-- The last `halt` or `resume` frame of a wire. -/
def lastStop : List (Nat × Frame) → Option Frame
  | [] => none
  | (_, .halt) :: _ => some .halt
  | (_, .resume) :: _ => some .resume
  | (_, .configure) :: wire => lastStop wire

/-- A caller of `halt` between its durable step and its frame. -/
def HaltPending : Pc → Prop
  | .ready .halt => True
  | .snapped .halt _ => True
  | .sending .halt _ _ => True
  | _ => False

/-- Clearing a half of the durable halt here erases no halt: the last frame is not a
halt, and nobody is about to write one on the strength of what is cleared. -/
def MayClear (m : Machine) : Prop :=
  lastStop m.wire ≠ some .halt ∧ (∀ k, ¬ HaltPending (m.pc k)) ∧
  ∀ r, m.reader = some r → r.phase ≠ .reasserting

/-- The steps that erase no halt. The file is not removed by hand either. -/
def Unerasing (m : Machine) : Event → Prop
  | .clear _ .disarm => MayClear m
  | .clear _ .unlink => MayClear m
  | .sentinel s => s ≠ .absent
  | _ => True

/-- What a run keeps about halts on their way to the wire. The lock keeps a `halt`
that has armed the flag from being cleared before it releases. -/
structure Standing (m : Machine) : Prop where
  lock : ∀ k, ((∃ c rest, m.pc k = .halting c rest) ∨ ∃ us rest, m.pc k = .clearing us rest) →
    m.lock = some k
  arming : ∀ k c rest, m.pc k = .halting c rest →
    HaltStage.arm ∈ rest ∨ m.durable.operator.armed = true
  pending : ∀ k, HaltPending (m.pc k) → m.durable.halted = true
  reasserting : ∀ r, m.reader = some r → r.phase = .reasserting → m.durable.halted = true
  last : lastStop m.wire = some .halt → m.durable.halted = true

theorem halted_of_armed {d : Durable} (armed : d.operator.armed = true) : d.halted = true := by
  rw [Durable.halted, OperatorHalt.halted, armed, Bool.true_or]

theorem Standing.start {m : Machine} (starts : Starts m) : Standing m where
  lock := by
    rintro k (⟨c, rest, pc⟩ | ⟨us, rest, pc⟩) <;> rw [starts.2.2.2.1 k] at pc <;> cases pc
  arming := by
    intro k c rest pc
    rw [starts.2.2.2.1 k] at pc
    cases pc
  pending := by
    intro k pending
    rw [starts.2.2.2.1 k] at pending
    cases pending
  reasserting := by
    intro r serving
    rw [starts.2.2.1] at serving
    cases serving
  last := by
    intro last
    rw [starts.2.2.2.2] at last
    cases last

/-- A thread that holds the lock excludes every other. -/
theorem Standing.exclusive {m : Machine} (h : Standing m) {j k : Nat}
    (hj : (∃ c rest, m.pc j = .halting c rest) ∨ ∃ us rest, m.pc j = .clearing us rest)
    (hk : (∃ c rest, m.pc k = .halting c rest) ∨ ∃ us rest, m.pc k = .clearing us rest) :
    j = k :=
  Option.some.inj ((h.lock j hj).symm.trans (h.lock k hk))

/-- A caller outside the lock moves to a place outside the lock where no new halt
pends, and the halt it leaves behind is no weaker. -/
theorem Standing.caller {m m' : Machine} {k : Nat} {p : Pc} (h : Standing m)
    (moved : m'.pc = Function.update m.pc k p)
    (outside : (∀ c rest, p ≠ .halting c rest) ∧ ∀ us rest, p ≠ .clearing us rest)
    (pends : HaltPending p → m'.durable.halted = true)
    (lock : ∀ j, j ≠ k → m.lock = some j → m'.lock = some j)
    (durable : m'.durable = m.durable) (reader : m'.reader = m.reader)
    (last : lastStop m'.wire = some .halt → m'.durable.halted = true) : Standing m' where
  lock := by
    intro j busy
    by_cases same : j = k
    · subst same
      rw [moved, Function.update_self] at busy
      obtain ⟨c, rest, at'⟩ | ⟨us, rest, at'⟩ := busy
      · exact absurd at' (outside.1 c rest)
      · exact absurd at' (outside.2 us rest)
    · rw [moved, Function.update_of_ne same] at busy
      exact lock j same (h.lock j busy)
  arming := by
    intro j c rest at'
    by_cases same : j = k
    · subst same
      rw [moved, Function.update_self] at at'
      exact absurd at' (outside.1 c rest)
    · rw [moved, Function.update_of_ne same] at at'
      rw [durable]
      exact h.arming j c rest at'
  pending := by
    intro j pending
    by_cases same : j = k
    · subst same
      rw [moved, Function.update_self] at pending
      exact pends pending
    · rw [moved, Function.update_of_ne same] at pending
      rw [durable]
      exact h.pending j pending
  reasserting := by
    rw [durable, reader]
    exact h.reasserting
  last := last

/-- A step of the read thread. -/
theorem Standing.reader {m m' : Machine} (h : Standing m) (pc : m'.pc = m.pc)
    (lock : m'.lock = m.lock) (durable : m'.durable = m.durable)
    (reasserting : ∀ r, m'.reader = some r → r.phase = .reasserting → m.durable.halted = true)
    (last : lastStop m'.wire = some .halt → m.durable.halted = true) : Standing m' where
  lock := by rw [pc, lock]; exact h.lock
  arming := by rw [pc, durable]; exact h.arming
  pending := by rw [pc, durable]; exact h.pending
  reasserting := by rw [durable]; exact reasserting
  last := by rw [durable]; exact last

/-- A caller takes the free lock. -/
theorem Standing.acquired {m m' : Machine} {k : Nat} {p : Pc} (h : Standing m)
    (free : m.lock = none) (moved : m'.pc = Function.update m.pc k p) (lock : m'.lock = some k)
    (arming : ∀ c rest, p = .halting c rest → HaltStage.arm ∈ rest) (quiet : ¬ HaltPending p)
    (durable : m'.durable = m.durable) (reader : m'.reader = m.reader)
    (wire : m'.wire = m.wire) : Standing m' where
  lock := by
    intro j busy
    by_cases same : j = k
    · exact same ▸ lock
    · rw [moved, Function.update_of_ne same] at busy
      exact absurd ((h.lock j busy).symm.trans free) nofun
  arming := by
    intro j c rest at'
    by_cases same : j = k
    · subst same
      rw [moved, Function.update_self] at at'
      exact .inl (arming c rest at')
    · rw [moved, Function.update_of_ne same] at at'
      exact durable ▸ h.arming j c rest at'
  pending := by
    intro j pending
    by_cases same : j = k
    · subst same
      rw [moved, Function.update_self] at pending
      exact absurd pending quiet
    · rw [moved, Function.update_of_ne same] at pending
      exact durable ▸ h.pending j pending
  reasserting := by rw [durable, reader]; exact h.reasserting
  last := by rw [durable, wire]; exact h.last

/-- The lock holder takes a stage that does not weaken the halt. -/
theorem Standing.staged {m m' : Machine} {k : Nat} {p : Pc} (h : Standing m)
    (busy : (∃ c rest, m.pc k = .halting c rest) ∨ ∃ us rest, m.pc k = .clearing us rest)
    (moved : m'.pc = Function.update m.pc k p) (lock : m'.lock = m.lock)
    (arming : ∀ c rest, p = .halting c rest →
      HaltStage.arm ∈ rest ∨ m'.durable.operator.armed = true) (quiet : ¬ HaltPending p)
    (halted : m.durable.halted = true → m'.durable.halted = true)
    (reader : m'.reader = m.reader) (wire : m'.wire = m.wire) : Standing m' where
  lock := by
    intro j busyAfter
    by_cases same : j = k
    · subst same
      exact lock ▸ h.lock j busy
    · rw [moved, Function.update_of_ne same] at busyAfter
      exact absurd (h.exclusive busyAfter busy) same
  arming := by
    intro j c rest at'
    by_cases same : j = k
    · subst same
      rw [moved, Function.update_self] at at'
      exact arming c rest at'
    · rw [moved, Function.update_of_ne same] at at'
      exact absurd (h.exclusive (.inl ⟨c, rest, at'⟩) busy) same
  pending := by
    intro j pending
    by_cases same : j = k
    · subst same
      rw [moved, Function.update_self] at pending
      exact absurd pending quiet
    · rw [moved, Function.update_of_ne same] at pending
      exact halted (h.pending j pending)
  reasserting := by
    rw [reader]
    exact fun r serving phase => halted (h.reasserting r serving phase)
  last := by
    rw [wire]
    exact fun last => halted (h.last last)

/-- The lock holder clears a half where nothing depends on it. -/
theorem Standing.cleared {m m' : Machine} {k : Nat} {insertedUs : Int} {p : Pc}
    {rest : List ResumeStage} (h : Standing m) (may : MayClear m)
    (holds : m.pc k = .clearing insertedUs rest) (moved : m'.pc = Function.update m.pc k p)
    (unhalting : ∀ c rest, p ≠ .halting c rest) (quiet : ¬ HaltPending p)
    (lock : m'.lock = m.lock) (reader : m'.reader = m.reader)
    (wire : m'.wire = m.wire) : Standing m' where
  lock := by
    intro j busyAfter
    by_cases same : j = k
    · subst same
      exact lock ▸ h.lock j (.inr ⟨_, _, holds⟩)
    · rw [moved, Function.update_of_ne same] at busyAfter
      exact absurd (h.exclusive busyAfter (.inr ⟨_, _, holds⟩)) same
  arming := by
    intro j c rest at'
    by_cases same : j = k
    · subst same
      rw [moved, Function.update_self] at at'
      exact absurd at' (unhalting c rest)
    · rw [moved, Function.update_of_ne same] at at'
      exact absurd (h.exclusive (.inl ⟨c, rest, at'⟩) (.inr ⟨_, _, holds⟩)) same
  pending := by
    intro j pending
    by_cases same : j = k
    · subst same
      rw [moved, Function.update_self] at pending
      exact absurd pending quiet
    · rw [moved, Function.update_of_ne same] at pending
      exact absurd pending (may.2.1 j)
  reasserting := by
    rw [reader]
    exact fun r serving phase => absurd phase (may.2.2 r serving)
  last := by
    rw [wire]
    exact fun last => absurd last may.1

theorem armed_haltEffect (c : HaltCall) (stage : HaltStage) {rest : List HaltStage} {d : Durable}
    (arming : HaltStage.arm ∈ stage :: rest ∨ d.operator.armed = true) :
    HaltStage.arm ∈ rest ∨ (Durable.haltEffect c stage d).operator.armed = true := by
  cases stage with
  | arm => exact .inr rfl
  | _ =>
      obtain later | armed := arming
      · exact .inl (by simpa using later)
      · exact .inr armed

theorem Phase.after_reasserting (next : Next) : Phase.after next ≠ .reasserting := by
  cases next <;> nofun

/-- One step that erases nothing keeps every halt standing. -/
theorem Standing.step {m m' : Machine} {e : Event} (h : Standing m) (st : Step m e m')
    (unerasing : Unerasing m e) : Standing m' := by
  cases st with
  | accept idle =>
      refine h.reader rfl rfl rfl (fun r serving phase => ?_) h.last
      obtain rfl := Option.some.inj serving
      cases phase
  | receive f serving phase =>
      refine h.reader rfl rfl rfl (fun r after looked => ?_) h.last
      obtain rfl := Option.some.inj after
      exact absurd looked (Phase.after_reasserting _)
  | @lookArmed r serving phase =>
      refine h.reader rfl rfl rfl (fun s after looked => ?_) h.last
      obtain rfl := Option.some.inj after
      by_cases armed : m.durable.operator.armed = true
      · exact halted_of_armed armed
      · rw [if_neg armed] at looked
        cases looked
  | @lookFile r serving phase =>
      refine h.reader rfl rfl rfl (fun s after looked => ?_) h.last
      obtain rfl := Option.some.inj after
      by_cases present : sentinelPresent m.durable.disk = true
      · exact halted_of_sentinelPresent present
      · rw [if_neg present] at looked
        cases looked
  | @reassert r serving phase connected =>
      have halted := h.reasserting r serving phase
      exact h.reader rfl rfl rfl (fun _ _ _ => halted) fun _ => halted
  | reassertFails serving phase =>
      refine h.reader rfl rfl rfl (fun s after looked => ?_) h.last
      obtain rfl := Option.some.inj after
      cases looked
  | reassertCommit serving phase =>
      refine h.reader rfl rfl rfl (fun s after looked => ?_) h.last
      obtain rfl := Option.some.inj after
      cases looked
  | callback raises serving phase =>
      refine h.reader rfl rfl rfl (fun s after looked => ?_) h.last
      obtain rfl := Option.some.inj after
      cases raises <;> cases looked
  | drop serving phase =>
      refine h.reader rfl rfl rfl (fun s after looked => ?_) h.last
      obtain rfl := Option.some.inj after
      cases looked
  | reset serving phase =>
      refine h.reader rfl rfl rfl (fun s after looked => ?_) h.last
      obtain rfl := Option.some.inj after
      cases looked
  | closed serving phase => exact h.reader rfl rfl rfl nofun h.last
  | configure pc ready =>
      exact h.caller rfl ⟨nofun, nofun⟩ nofun (fun _ _ held => held) rfl rfl h.last
  | halt c pc free =>
      refine h.acquired free rfl rfl (fun c' rest same => ?_) nofun rfl rfl rfl
      cases same
      decide
  | resume pc => exact h.caller rfl ⟨nofun, nofun⟩ nofun (fun _ _ held => held) rfl rfl h.last
  | @stage k c stage rest pc =>
      refine h.staged (.inl ⟨_, _, pc⟩) rfl rfl (fun c' rest' same => ?_) nofun
        (Durable.halted_haltEffect c stage) rfl rfl
      cases same
      exact armed_haltEffect c stage (h.arming k c _ pc)
  | @stageRaises k c stage rest pc unarmed =>
      refine h.caller rfl ⟨nofun, nofun⟩ nofun (fun j other held => ?_) rfl rfl h.last
      have mine := h.lock k (.inl ⟨_, _, pc⟩)
      exact absurd (Option.some.inj (held.symm.trans mine)) other
  | @release k c pc =>
      have armed : m.durable.operator.armed = true :=
        (h.arming k c [] pc).resolve_left List.not_mem_nil
      refine h.caller rfl ⟨nofun, nofun⟩ (fun _ => halted_of_armed armed)
        (fun j other held => ?_) rfl rfl h.last
      have mine := h.lock k (.inl ⟨_, _, pc⟩)
      exact absurd (Option.some.inj (held.symm.trans mine)) other
  | @snap k f pc =>
      refine h.caller rfl ⟨nofun, nofun⟩ (fun pending => ?_) (fun _ _ held => held) rfl rfl h.last
      cases f with
      | halt => exact h.pending k (by rw [pc]; trivial)
      | _ => cases pending
  | @connect k gen conn f pc connected =>
      refine h.caller rfl ⟨nofun, nofun⟩ (fun pending => ?_) (fun _ _ held => held) rfl rfl h.last
      cases f with
      | halt => exact h.pending k (by rw [pc]; trivial)
      | _ => cases pending
  | notConnected pc =>
      exact h.caller rfl ⟨nofun, nofun⟩ nofun (fun _ _ held => held) rfl rfl h.last
  | writeFails pc =>
      exact h.caller rfl ⟨nofun, nofun⟩ nofun (fun _ _ held => held) rfl rfl h.last
  | @write k gen r f pc serving =>
      refine h.caller rfl ⟨nofun, nofun⟩ nofun (fun _ _ held => held) rfl rfl (fun last => ?_)
      cases f with
      | halt => exact h.pending k (by rw [pc]; trivial)
      | resume => cases last
      | configure => exact h.last last
  | commitHalt pc same =>
      exact h.caller rfl ⟨nofun, nofun⟩ nofun (fun _ _ held => held) rfl rfl h.last
  | commitResume pc same =>
      exact h.caller rfl ⟨nofun, nofun⟩ nofun (fun _ _ held => held) rfl rfl h.last
  | stale pc other differs =>
      exact h.caller rfl ⟨nofun, nofun⟩ nofun (fun _ _ held => held) rfl rfl h.last
  | answered reply pc =>
      exact h.caller rfl ⟨nofun, nofun⟩ nofun (fun _ _ held => held) rfl rfl h.last
  | acquire insertedUs pc free => exact h.acquired free rfl rfl nofun nofun rfl rfl rfl
  | @clear k insertedUs stage rest pc =>
      cases stage with
      | insert => exact h.staged (.inr ⟨_, _, pc⟩) rfl rfl nofun nofun id rfl rfl
      | disarm => exact h.cleared unerasing pc rfl nofun nofun rfl rfl rfl
      | unlink => exact h.cleared unerasing pc rfl nofun nofun rfl rfl rfl
  | @clearRaises k insertedUs stage rest pc uncleared =>
      refine h.caller rfl ⟨nofun, nofun⟩ nofun (fun j other held => ?_) rfl rfl h.last
      have mine := h.lock k (.inr ⟨_, _, pc⟩)
      exact absurd (Option.some.inj (held.symm.trans mine)) other
  | @done k insertedUs pc =>
      refine h.caller rfl ⟨nofun, nofun⟩ nofun (fun j other held => ?_) rfl rfl h.last
      have mine := h.lock k (.inr ⟨_, _, pc⟩)
      exact absurd (Option.some.inj (held.symm.trans mine)) other
  | sentinel s =>
      have present := sentinelPresent_withSentinel (d := m.durable) unerasing
      have halted := halted_of_sentinelPresent present
      exact {
        lock := h.lock
        arming := h.arming
        pending := fun _ _ => halted
        reasserting := fun _ _ _ => halted
        last := fun _ => halted }

/-- In a run that erases no halt, a halt frame that is the last one on the wire stands
beside a durable halt, and `send` refuses. -/
theorem last_halt_stands {past : List Event} {m : Machine}
    (run : (system.restrict Unerasing).History past m) (last : lastStop m.wire = some .halt) :
    m.durable.halted = true ∧ m.station.SendRefuses := by
  have standing : Standing m := run.reachable.invariant (fun _ starts => .start starts)
    fun _ _ _ held st => held.step st.1 st.2
  have halted := standing.last last
  exact ⟨halted, (Station.sendRefuses_iff m.station).2 (.inl halted)⟩

/-- The same session over a store with no halt. -/
def freeStore : Machine :=
  { haltedStore with
    station :=
      { durable := .openedOn ⟨"/srv/engagement", "e-1", false, none⟩ .absent []
        server := .new "e-1" } }

theorem freeStore_starts : Starts freeStore :=
  ⟨⟨"e-1", rfl⟩, rfl, rfl, fun _ => rfl, rfl⟩

def stop : HaltCall := ⟨"stop", 2, 2⟩

/-- One `halt` on a greeted connection. -/
theorem last_halt_stands_once :
    ∃ past m, (system.restrict Unerasing).History past m ∧ lastStop m.wire = some .halt ∧
      m.durable.halted = true := by
  have fresh : (system.restrict Unerasing).History [] freeStore := .start freeStore_starts
  have greeted := (fresh.step ⟨.accept rfl, trivial⟩).step ⟨.receive greeting rfl rfl, trivial⟩
  have looked := (greeted.step ⟨.lookArmed rfl rfl, trivial⟩).step ⟨.lookFile rfl rfl, trivial⟩
  have called := looked.step ⟨.halt (k := 0) stop rfl rfl, trivial⟩
  have opened := (called.step ⟨.stage (k := 0) rfl, trivial⟩).step ⟨.stage (k := 0) rfl, trivial⟩
  have written := (opened.step ⟨.stage (k := 0) rfl, trivial⟩).step ⟨.stage (k := 0) rfl, trivial⟩
  have synced := (written.step ⟨.stage (k := 0) rfl, trivial⟩).step ⟨.stage (k := 0) rfl, trivial⟩
  have armed := (synced.step ⟨.stage (k := 0) rfl, trivial⟩).step ⟨.stage (k := 0) rfl, trivial⟩
  have released := armed.step ⟨.release (k := 0) rfl, trivial⟩
  have sending := (released.step ⟨.snap (k := 0) rfl, trivial⟩).step
    ⟨.connect (k := 0) rfl rfl, trivial⟩
  have wrote := sending.step ⟨.write (k := 0) rfl rfl, by trivial⟩
  exact ⟨_, _, wrote, rfl, (last_halt_stands wrote rfl).1⟩

/-- A `resume` whose frame was written before a whole `halt` and whose commit and
durable clear come after it: every call has returned, the last frame is the halt, and
nothing is halted any more. -/
theorem resume_erases_halt :
    ¬ ∀ past m, system.History past m → (∀ k, m.pc k = .idle) →
      lastStop m.wire = some .halt → m.durable.halted = true ∧ m.station.SendRefuses := by
  intro holds
  have fresh : system.History [] freeStore := .start freeStore_starts
  have greeted := (fresh.step (.accept rfl)).step (.receive greeting rfl rfl)
  have looked := (greeted.step (.lookArmed rfl rfl)).step (.lookFile rfl rfl)
  have asked := ((looked.step (.configure (k := 0) rfl rfl)).step (.snap (k := 0) rfl)).step
    (.connect (k := 0) rfl rfl)
  have configured := (asked.step (.write (k := 0) rfl rfl)).step (.answered (k := 0) (.epoch 1) rfl)
  have resuming := ((configured.step (.resume (k := 1) rfl)).step (.snap (k := 1) rfl)).step
    (.connect (k := 1) rfl rfl)
  have resumed := resuming.step (.write (k := 1) rfl rfl)
  have called := resumed.step (.halt (k := 2) stop rfl rfl)
  have opened := (called.step (.stage (k := 2) rfl)).step (.stage (k := 2) rfl)
  have installed := (opened.step (.stage (k := 2) rfl)).step (.stage (k := 2) rfl)
  have synced := (installed.step (.stage (k := 2) rfl)).step (.stage (k := 2) rfl)
  have armed := (synced.step (.stage (k := 2) rfl)).step (.stage (k := 2) rfl)
  have halting := ((armed.step (.release (k := 2) rfl)).step (.snap (k := 2) rfl)).step
    (.connect (k := 2) rfl rfl)
  have halted := (halting.step (.write (k := 2) rfl rfl)).step (.commitHalt (k := 2) rfl rfl)
  have committed := (halted.step (.commitResume (k := 1) rfl rfl)).step
    (.acquire (k := 1) 3 rfl rfl)
  have cleared := ((committed.step (.clear (k := 1) rfl)).step (.clear (k := 1) rfl)).step
    (.clear (k := 1) rfl)
  have returned := cleared.step (.done (k := 1) rfl)
  have standing := holds _ _ returned (fun k => by
    match k with
    | 0 => rfl
    | 1 => rfl
    | 2 => rfl
    | k + 3 => rfl) rfl
  cases standing.1

end Hx.Harness.Threads
