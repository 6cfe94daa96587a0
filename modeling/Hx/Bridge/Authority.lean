import Hx.Bridge.Client

/-!
# What a bridge client permits

The read loop's position matters only through its phase. `Exclusive` is what
`commitLock` gives: a commit and a close do not overlap, and a closed client has no
commit in progress. `Authorised` relates the flag and the published reference to what
the history grants. Between the decision of a deny and its first write the flag can
still be up; `Pending` names that window and nothing else is excused.
-/

namespace Hx.Bridge

namespace Client

open Hx.Java Hx.Library

/-- What the position of the read loop says about the permission state. -/
inductive Phase where
  | offline
  | serving
  | deciding
  | locked
  | published
  | denying
  | erasing
  deriving DecidableEq

def phaseOf : Pc → Phase
  | .idle | .dialling => .offline
  | .considering _ | .locking _ => .deciding
  | .locked _ => .locked
  | .published _ => .published
  | .clearing _ | .leaving => .denying
  | .erasing _ => .erasing
  | .reading | .received _ | .answering | .sending | .switched _ | .stopped _ | .resumed =>
      .serving

def phase (m : Client) : Phase := phaseOf m.pc

/-- A deny has been decided and its first write, the one that lowers the flag, is still
to come. -/
def Pending (m : Client) : Prop := m.phase = .denying ∨ m.closer = .marked

/-- A deny has been decided and its second write is still to come. -/
def Denying (m : Client) : Prop := Pending m ∨ m.phase = .erasing ∨ m.closer = .cleared

/-- A configure is between its parse and its commit. -/
def Deciding (m : Client) : Prop := m.phase = .deciding ∨ m.phase = .locked

variable {engagementId : JString} {parse : List UInt8 → Except ParseFailure Scope}
variable {past later : List Event} {m n : Client} {e : Event}

/-! ## The lock -/

structure Exclusive (m : Client) : Prop where
  commit : m.phase = .locked ∨ m.phase = .published → m.lock = some .reader
  close : m.closer ≠ .idle → m.lock = some .closer
  sealed : m.closed = true → m.phase ≠ .published
  shut : m.closer = .marked ∨ m.closer = .cleared → m.closed = true

theorem Exclusive.start (h : Starts m) : Exclusive m := by
  obtain ⟨closed, -, -, -, -, -, pc, closer⟩ := h
  have offline : m.phase = .offline := by simp [phase, pc, phaseOf]
  exact {
    commit := by simp [offline]
    close := fun busy => absurd closer busy
    sealed := fun _ => by simp [offline]
    shut := by simp [closer] }

/-- A commit in progress keeps every call of `close` out. -/
theorem Exclusive.closer_idle (h : Exclusive m)
    (inside : m.phase = .locked ∨ m.phase = .published) : m.closer = .idle := by
  by_contra busy
  have reader := h.commit inside
  rw [h.close busy] at reader
  cases reader

/-- A call of `close` keeps every commit out. -/
theorem Exclusive.outside (h : Exclusive m) (busy : m.closer ≠ .idle) :
    m.phase ≠ .locked ∧ m.phase ≠ .published :=
  ⟨fun inside => busy (h.closer_idle (.inl inside)),
    fun inside => busy (h.closer_idle (.inr inside))⟩

/-- The read loop moves on outside the lock. -/
theorem Exclusive.move {p : Pc} (h : Exclusive m)
    (outside : phaseOf p ≠ .locked ∧ phaseOf p ≠ .published) :
    Exclusive { m with pc := p } where
  commit inside := inside.elim (fun at' => absurd at' outside.1) (fun at' => absurd at' outside.2)
  close := h.close
  sealed _ := outside.2
  shut := h.shut

theorem next_outside (next : Next) :
    phaseOf next.pc ≠ .locked ∧ phaseOf next.pc ≠ .published := by
  cases next <;> simp [Next.pc, phaseOf]

theorem Exclusive.step (h : Exclusive m) (st : Step engagementId parse m e n) :
    Exclusive n := by
  cases st with
  | acquire at' free =>
      exact {
        commit := fun _ => rfl
        close := fun busy => absurd ((h.close busy).symm.trans free) (by simp)
        sealed := fun _ => by simp [phase, phaseOf]
        shut := h.shut }
  | closedCommit at' closed =>
      have idle := h.closer_idle (.inl (by simp [phase, at', phaseOf]))
      exact {
        commit := by simp [phase, phaseOf]
        close := fun busy => absurd idle busy
        sealed := fun _ => by simp [phase, phaseOf]
        shut := h.shut }
  | publish at' opened =>
      exact {
        commit := fun _ => h.commit (.inl (by simp [phase, at', phaseOf]))
        close := h.close
        sealed := fun closed => absurd (opened.symm.trans closed) (by simp)
        shut := h.shut }
  | armed at' =>
      have idle := h.closer_idle (.inr (by simp [phase, at', phaseOf]))
      exact {
        commit := by simp [phase, phaseOf]
        close := fun busy => absurd idle busy
        sealed := fun _ => by simp [phase, phaseOf]
        shut := h.shut }
  | close idle free =>
      exact {
        commit := fun inside => absurd ((h.commit inside).symm.trans free) (by simp)
        close := fun _ => rfl
        sealed := h.sealed
        shut := by simp }
  | closeMark at' =>
      have busy : m.closer ≠ .idle := by simp [at']
      exact {
        commit := h.commit
        close := fun _ => h.close busy
        sealed := fun _ => (h.outside busy).2
        shut := fun _ => rfl }
  | closeClear at' =>
      exact {
        commit := h.commit
        close := fun _ => h.close (by simp [at'])
        sealed := h.sealed
        shut := fun _ => h.shut (.inl at') }
  | closeErase at' =>
      have outside := h.outside (by simp [at'])
      exact {
        commit := fun inside => (inside.elim outside.1 outside.2).elim
        close := fun busy => absurd rfl busy
        sealed := h.sealed
        shut := by simp }
  | @erase next at' =>
      have moved := h.move (next_outside next)
      exact ⟨moved.commit, moved.close, moved.sealed, moved.shut⟩
  | held why => exact ⟨h.commit, h.close, h.sealed, h.shut⟩
  | stop at' | resume at' | reason at' | clear at' =>
      refine ⟨?_, h.close, fun _ => ?_, h.shut⟩ <;> simp [phase, phaseOf]
  | _ => exact h.move (by simp [phaseOf])

/-! ## The flag and the reference -/

/-- `granting` is the state between the two writes of a commit. -/
structure Authorised (past : List Event) (m : Client) : Prop where
  offline : m.phase = .offline → m.configured = false ∧ m.committed = denied
  erasing : m.phase = .erasing ∨ m.closer = .cleared → m.configured = false
  granting : m.phase = .published → 1 ≤ (authority past).epoch
  revoked : Denying m → authority past = denied
  published : Denying m ∨ m.committed = authority past
  permitted : m.configured = true → Pending m ∨ 1 ≤ (authority past).epoch
  current : 1 ≤ (authority past).epoch → Deciding m ∨ standing past = true

theorem Authorised.start (h : Starts m) : Authorised [] m := by
  obtain ⟨-, configured, -, committed, -, -, pc, closer⟩ := h
  exact {
    offline := fun _ => ⟨configured, committed⟩
    erasing := fun _ => configured
    granting := by simp [phase, pc, phaseOf]
    revoked := fun _ => rfl
    published := .inr committed
    permitted := by simp [configured]
    current := by simp [authority, denied] }

/-- Two states that agree on everything `Authorised` reads. -/
structure Alike (m n : Client) : Prop where
  phase : n.phase = m.phase
  configured : n.configured = m.configured
  committed : n.committed = m.committed
  marked : n.closer = .marked ↔ m.closer = .marked
  cleared : n.closer = .cleared ↔ m.closer = .cleared

/-- The read loop moves on within its phase. -/
theorem Alike.of_phase {p : Pc} {why : Option JString} (same : phaseOf p = m.phase) :
    Alike m { m with pc := p, haltReason := why } :=
  ⟨same, rfl, rfl, Iff.rfl, Iff.rfl⟩

theorem Authorised.keep (h : Authorised past m) (nothing : e.effect = .nothing)
    (same : Alike m n) : Authorised (e :: past) n := by
  obtain ⟨phase, configured, committed, marked, cleared⟩ := same
  obtain ⟨offline, erasing, granting, revoked, published, permitted, current⟩ := h
  constructor <;>
    simpa only [authority, standing, nothing, Denying, Pending, Deciding, phase, configured,
      committed, marked, cleared]

/-- The read loop decides a deny; it may give the lock up on the way. -/
theorem Authorised.deny {p : Pc} {lock : Option Holder} (h : Authorised past m)
    (revokes : e.effect = .revokes) (denying : phaseOf p = .denying) :
    Authorised (e :: past) { m with pc := p, lock := lock } := by
  have pending : Pending { m with pc := p, lock := lock } := .inl denying
  constructor <;> simp only [authority, revokes, phase, denying]
  · simp
  · exact fun at' => h.erasing (at'.elim (by simp) .inr)
  · simp
  · simp
  · exact .inl (.inl pending)
  · exact fun _ => .inl pending
  · simp [denied]

theorem Authorised.step (h : Authorised past m) (locks : Exclusive m)
    (st : Step engagementId parse m e n) : Authorised (e :: past) n := by
  cases st with
  | dial at' opened =>
      have lowered := h.offline (by simp [phase, at', phaseOf])
      exact {
        offline := fun _ => lowered
        erasing := fun _ => lowered.1
        granting := by simp [phase, phaseOf]
        revoked := fun _ => rfl
        published := .inr lowered.2
        permitted := by simp [lowered.1]
        current := by simp [authority, Event.effect, denied] }
  | dialFails at' => exact h.keep rfl (.of_phase (by simp [phase, at', phaseOf]))
  | read f at' => exact h.keep rfl (.of_phase (by simp [phase, at', phaseOf]))
  | unconsidered at' opened kind => exact h.keep rfl (.of_phase (by simp [phase, at', phaseOf]))
  | accepted at' parsed => exact h.keep rfl (.of_phase (by simp [phase, at', phaseOf]))
  | answered at' => exact h.keep rfl (.of_phase (by simp [phase, at', phaseOf]))
  | send at' opened kind => exact h.keep rfl (.of_phase (by simp [phase, at', phaseOf]))
  | sent at' => exact h.keep rfl (.of_phase (by simp [phase, at', phaseOf]))
  | identity at' opened kind => exact h.keep rfl (.of_phase (by simp [phase, at', phaseOf]))
  | switch at' opened kind => exact h.keep rfl (.of_phase (by simp [phase, at', phaseOf]))
  | reason at' => exact h.keep rfl (.of_phase (by simp [phase, at', phaseOf]))
  | rearm at' => exact h.keep rfl (.of_phase (by simp [phase, at', phaseOf]))
  | disconnected | raised | closedFrame | mismatch | closedCommit | unanswered | leave =>
      exact h.deny rfl rfl
  | unparsed | parseThrows | guarded => exact h.deny rfl rfl
  | undeliverable | sendThrows | switchThrows | rearmThrows => exact h.deny rfl rfl
  | connected at' opened =>
      have lowered := h.offline (by simp [phase, at', phaseOf])
      exact {
        offline := by simp [phase, phaseOf]
        erasing := fun _ => lowered.1
        granting := by simp [phase, phaseOf]
        revoked := by
          simpa [authority, Event.effect, Denying, Pending, phase, at', phaseOf] using h.revoked
        published := by
          simpa [authority, Event.effect, Denying, Pending, phase, at', phaseOf] using h.published
        permitted := by simp [lowered.1]
        current := by
          simpa [authority, standing, Event.effect, Deciding, phase, at', phaseOf] using h.current }
  | consider at' opened kind =>
      exact {
        offline := by simp [phase, phaseOf]
        erasing := by simpa [phase, at', phaseOf] using h.erasing
        granting := by simp [phase, phaseOf]
        revoked := by
          simpa [authority, Event.effect, Denying, Pending, phase, at', phaseOf] using h.revoked
        published := by
          simpa [authority, Event.effect, Denying, Pending, phase, at', phaseOf] using h.published
        permitted := by
          simpa [authority, Event.effect, Pending, phase, at', phaseOf] using h.permitted
        current := fun _ => .inl (.inl rfl) }
  | acquire at' free =>
      exact {
        offline := by simp [phase, phaseOf]
        erasing := by simpa [phase, at', phaseOf] using h.erasing
        granting := by simp [phase, phaseOf]
        revoked := by
          simpa [authority, Event.effect, Denying, Pending, phase, at', phaseOf] using h.revoked
        published := by
          simpa [authority, Event.effect, Denying, Pending, phase, at', phaseOf] using h.published
        permitted := by
          simpa [authority, Event.effect, Pending, phase, at', phaseOf] using h.permitted
        current := fun _ => .inl (.inr rfl) }
  | publish at' opened =>
      have idle := locks.closer_idle (.inl (by simp [phase, at', phaseOf]))
      exact {
        offline := by simp [phase, phaseOf]
        erasing := by simp [phase, phaseOf, idle]
        granting := fun _ => Nat.le_add_left 1 m.epochCounter
        revoked := by simp [Denying, Pending, phase, phaseOf, idle]
        published := .inr rfl
        permitted := fun _ => .inr (Nat.le_add_left 1 m.epochCounter)
        current := fun _ => .inr rfl }
  | armed at' =>
      have inside : m.phase = .published := by simp [phase, at', phaseOf]
      have idle := locks.closer_idle (.inr inside)
      exact {
        offline := by simp [phase, phaseOf]
        erasing := by simp [phase, phaseOf, idle]
        granting := by simp [phase, phaseOf]
        revoked := by simp [Denying, Pending, phase, phaseOf, idle]
        published := by
          simpa [authority, Event.effect, Denying, Pending, phase, at', phaseOf, idle] using h.published
        permitted := fun _ => .inr (h.granting inside)
        current := by
          simpa [authority, standing, Event.effect, Deciding, phase, at', phaseOf] using h.current }
  | stop at' =>
      exact h.keep rfl ⟨by simp [phase, at', phaseOf], rfl, rfl, Iff.rfl, Iff.rfl⟩
  | resume at' opened kind =>
      exact h.keep rfl ⟨by simp [phase, at', phaseOf], rfl, rfl, Iff.rfl, Iff.rfl⟩
  | clear at' =>
      exact {
        offline := by simp [phase, phaseOf]
        erasing := fun _ => rfl
        granting := by simp [phase, phaseOf]
        revoked := fun _ => h.revoked (.inl (.inl (by simp [phase, at', phaseOf])))
        published := .inl (.inr (.inl rfl))
        permitted := by simp
        current := by
          have gone := h.revoked (.inl (.inl (by simp [phase, at', phaseOf])))
          simp [authority, Event.effect, gone, denied] }
  | @erase next at' =>
      have gone := h.revoked (.inr (.inl (by simp [phase, at', phaseOf])))
      have lowered := h.erasing (.inl (by simp [phase, at', phaseOf]))
      exact {
        offline := fun _ => ⟨lowered, rfl⟩
        erasing := fun _ => lowered
        granting := fun inside => absurd inside (next_outside next).2
        revoked := fun _ => gone
        published := .inr gone.symm
        permitted := by simp [lowered]
        current := by simp [authority, Event.effect, gone, denied] }
  | close idle free => exact h.keep rfl ⟨rfl, rfl, rfl, by simp [idle], by simp [idle]⟩
  | closeMark at' =>
      have outside := locks.outside (by simp [at'])
      exact {
        offline := h.offline
        erasing := fun at'' => h.erasing (at''.elim .inl (by simp))
        granting := fun inside => absurd inside outside.2
        revoked := fun _ => rfl
        published := .inl (.inl (.inr rfl))
        permitted := fun _ => .inl (.inr rfl)
        current := by simp [authority, Event.effect, denied] }
  | closeClear at' =>
      have outside := locks.outside (by simp [at'])
      have gone := h.revoked (.inl (.inr at'))
      exact {
        offline := fun at'' => ⟨rfl, (h.offline at'').2⟩
        erasing := fun _ => rfl
        granting := fun inside => absurd inside outside.2
        revoked := fun _ => gone
        published := .inl (.inr (.inr rfl))
        permitted := by simp
        current := by simp [authority, Event.effect, gone, denied] }
  | closeErase at' =>
      have outside := locks.outside (by simp [at'])
      have gone := h.revoked (.inr (.inr at'))
      have lowered := h.erasing (.inr at')
      exact {
        offline := fun _ => ⟨lowered, rfl⟩
        erasing := fun _ => lowered
        granting := fun inside => absurd inside outside.2
        revoked := fun _ => gone
        published := .inr gone.symm
        permitted := by simp [lowered]
        current := by simp [authority, Event.effect, gone, denied] }
  | held why => exact h.keep rfl ⟨rfl, rfl, rfl, Iff.rfl, Iff.rfl⟩

/-! ## Epochs, halts and closing -/

/-- The counter bounds every epoch committed, and each commit is above the last. -/
structure Counted (past : List Event) (m : Client) : Prop where
  bounded : ∀ epoch ∈ epochs past, 1 ≤ epoch ∧ epoch ≤ m.epochCounter
  increasing : (epochs past).Pairwise (· > ·)

theorem Counted.step (h : Counted past m) (st : Step engagementId parse m e n) :
    Counted (e :: past) n := by
  cases st with
  | publish at' opened =>
      have below := h.bounded
      constructor
      · intro epoch among
        obtain rfl | earlier := List.mem_cons.1 among
        · exact ⟨Nat.le_add_left 1 _, Nat.le_refl _⟩
        · have bound := below epoch earlier
          exact ⟨bound.1, Nat.le_succ_of_le bound.2⟩
      · exact List.pairwise_cons.2 ⟨fun epoch earlier => Nat.lt_succ_of_le (below epoch earlier).2,
          h.increasing⟩
  | _ => exact ⟨h.bounded, h.increasing⟩

theorem halted_step (h : m.halted = haltFlag past) (st : Step engagementId parse m e n) :
    n.halted = haltFlag (e :: past) := by
  cases st with
  | stop at' => rfl
  | resume at' opened kind => rfl
  | _ => exact h

/-- A close that has returned has left the client closed, with no permission. -/
def Over (past : List Event) (m : Client) : Prop :=
  .closeErase ∈ past → m.closed = true ∧ m.configured = false ∧ m.committed = denied

theorem Over.step (h : Over past m) (locks : Exclusive m) (grants : Authorised past m)
    (st : Step engagementId parse m e n) : Over (e :: past) n := by
  intro returned
  cases st with
  | closeErase at' =>
      exact ⟨locks.shut (.inr at'), grants.erasing (.inr at'), rfl⟩
  | publish at' opened =>
      have shut := h (by simpa using returned)
      exact absurd (opened.symm.trans shut.1) (by simp)
  | armed at' =>
      have shut := h (by simpa using returned)
      exact absurd (by simp [phase, at', phaseOf]) (locks.sealed shut.1)
  | clear at' | closeClear at' =>
      have shut := h (by simpa using returned)
      exact ⟨shut.1, rfl, shut.2.2⟩
  | erase at' =>
      have shut := h (by simpa using returned)
      exact ⟨shut.1, shut.2.1, rfl⟩
  | closeMark at' =>
      have shut := h (by simpa using returned)
      exact ⟨rfl, shut.2⟩
  | _ => exact h (by simpa using returned)

/-- Closing is for good, and a closed client commits nothing. -/
theorem closed_step (closed : m.closed = true) (st : Step engagementId parse m e n) :
    n.closed = true ∧ ∀ epoch scope, e ≠ .publish epoch scope := by
  cases st with
  | publish at' opened => exact absurd (opened.symm.trans closed) (by simp)
  | _ => exact ⟨by first | exact closed | rfl, nofun⟩

/-- Only a `resume` lifts a halt. -/
theorem halted_kept (halted : m.halted = true) (st : Step engagementId parse m e n)
    (unresumed : e ≠ .resume) : n.halted = true := by
  cases st with
  | resume at' opened kind => exact absurd rfl unresumed
  | stop at' => rfl
  | _ => exact halted

/-! ## Runs -/

/-- Everything a run keeps. -/
structure Kept (past : List Event) (m : Client) : Prop where
  locks : Exclusive m
  grants : Authorised past m
  counts : Counted past m
  halts : m.halted = haltFlag past
  closes : Over past m

theorem kept_of_run (run : (system engagementId parse).History past m) : Kept past m := by
  induction run with
  | start h =>
      exact {
        locks := .start h
        grants := .start h
        counts := ⟨nofun, .nil⟩
        halts := h.2.2.1
        closes := nofun }
  | step _ st ih =>
      exact {
        locks := ih.locks.step st
        grants := ih.grants.step ih.locks st
        counts := ih.counts.step st
        halts := halted_step ih.halts st
        closes := ih.closes.step ih.locks ih.grants st }

theorem closed_run (closed : m.closed = true)
    (run : ((system engagementId parse).startingAt m).History later n) :
    n.closed = true ∧ ∀ epoch scope, .publish epoch scope ∉ later := by
  induction run with
  | start same => exact ⟨same ▸ closed, fun _ _ => List.not_mem_nil⟩
  | step _ st ih =>
      have kept := closed_step ih.1 st
      refine ⟨kept.1, fun epoch scope among => ?_⟩
      obtain rfl | earlier := List.mem_cons.1 among
      · exact kept.2 epoch scope rfl
      · exact ih.2 epoch scope earlier

theorem halted_run (halted : m.halted = true)
    (run : ((system engagementId parse).startingAt m).History later n)
    (unresumed : .resume ∉ later) : n.halted = true := by
  induction run with
  | start same => exact same ▸ halted
  | step _ st ih =>
      have earlier := ih fun among => unresumed (.tail _ among)
      exact halted_kept earlier st fun same => unresumed (same ▸ .head _)

/-- A raised flag leaves only the window of a deny whose first write is to come. -/
theorem Kept.permitted (h : Kept past m) (on : m.configured = true) :
    Pending m ∨ 1 ≤ (authority past).epoch ∧ m.committed = authority past ∧
      (Deciding m ∨ standing past = true) := by
  obtain pending | epoch := h.grants.permitted on
  · exact .inl pending
  · obtain (pending | erasing) | same := h.grants.published
    · exact .inl pending
    · exact absurd (h.grants.erasing erasing) (by simp [on])
    · exact .inr ⟨epoch, same, h.grants.current epoch⟩

/-- A deny event leaves nothing published until the next commit. -/
theorem Kept.revoked {before : List Event} (h : Kept (later ++ e :: before) m)
    (revokes : e.effect = .revokes)
    (uncommitted : ∀ epoch scope, .publish epoch scope ∉ later) :
    Denying m ∨ m.committed = denied ∧ m.maySend = false := by
  have gone : authority (later ++ e :: before) = denied :=
    authority_append_revoked revokes uncommitted
  obtain denying | same := h.grants.published
  · exact .inl denying
  · cases on : m.configured with
    | false => exact .inr ⟨same.trans gone, by simp [maySend, on]⟩
    | true =>
        obtain pending | epoch := h.grants.permitted on
        · exact .inl (.inl pending)
        · rw [gone] at epoch
          exact absurd epoch (by simp [denied])

/-- What every run of a client guarantees: when it may send, what epochs it commits, what
a deny event leaves, and that neither a halt nor a close is undone by a configure. -/
theorem permission_over_runs (run : (system engagementId parse).History past m) :
    (m.maySend = true → haltFlag past = false ∧ m.held = none ∧
      (Pending m ∨ 1 ≤ (authority past).epoch ∧ m.committed = authority past ∧
        (Deciding m ∨ standing past = true))) ∧
    (epochs past).Pairwise (· > ·) ∧
    (∀ later deny before, past = later ++ deny :: before → deny.effect = .revokes →
      (∀ epoch scope, .publish epoch scope ∉ later) →
      Denying m ∨ m.committed = denied ∧ m.maySend = false) ∧
    (∀ later n, ((system engagementId parse).startingAt m).History later n →
      (m.halted = true → .resume ∉ later → n.halted = true ∧ n.maySend = false) ∧
      (m.closed = true → n.closed = true ∧ ∀ epoch scope, .publish epoch scope ∉ later)) ∧
    (.closeErase ∈ past → m.committed = denied ∧ m.maySend = false) := by
  have kept := kept_of_run run
  refine ⟨fun may => ?_, kept.counts.increasing, ?_, fun later n continued => ⟨?_, ?_⟩, ?_⟩
  · simp only [maySend, Bool.and_eq_true, Bool.not_eq_true', Option.isNone_iff_eq_none] at may
    obtain ⟨⟨on, unhalted⟩, unheld⟩ := may
    exact ⟨kept.halts.symm.trans unhalted, unheld, kept.permitted on⟩
  · rintro later deny before rfl revokes uncommitted
    exact kept.revoked revokes uncommitted
  · intro halted unresumed
    have still := halted_run halted continued unresumed
    exact ⟨still, by simp [maySend, still]⟩
  · intro closed
    exact closed_run closed continued
  · intro returned
    obtain ⟨-, lowered, empty⟩ := kept.closes returned
    exact ⟨empty, by simp [maySend, lowered]⟩

/-! ## A configure for another engagement -/

/-- A configure frame of this protocol version that names `engagement`. -/
def configureFor (engagement : JString) : Frame where
  header := [(js "v", .long protocolVersion), (js "t", .string (js "configure")),
    (js "deadline_us", .long 1), (js "engagement_id", .string engagement)]
  body := []

/-- The most recent `configure` frame read on this connection was committed. -/
def lastConfigureCommitted : List Event → Bool
  | [] => false
  | .publish _ _ :: _ => true
  | .dial :: _ => false
  | .read f :: past => if f.kind = js "configure" then false else lastConfigureCommitted past
  | _ :: past => lastConfigureCommitted past

/-- A client for `a` as it is built. -/
def fresh : Client where
  closed := false
  configured := false
  halted := false
  haltReason := none
  committed := denied
  epochCounter := 0
  lock := none
  pc := .idle
  closer := .idle
  held := none

/-- The same client after one configure. -/
def served : Client :=
  { fresh with pc := .reading, configured := true, epochCounter := 1, committed := ⟨1, []⟩ }

/-- The run that serves one configure. -/
def servedPast : List Event :=
  [.answered, .armed 1, .publish 1 [], .acquire, .accepted [], .consider,
    .read (configureFor (js "a")), .connected, .dial]

theorem fresh_configured : (system (js "a") fun _ => .ok []).History servedPast served := by
  have start : (system (js "a") fun _ => .ok []).History [] fresh :=
    .start ⟨rfl, rfl, rfl, rfl, rfl, rfl, rfl, rfl⟩
  have received := ((start.step (.dial rfl rfl)).step (.connected rfl rfl)).step
    (.read (configureFor (js "a")) rfl)
  have accepted := (received.step (.consider rfl rfl (by decide))).step (.accepted rfl rfl)
  have published := (accepted.step (.acquire rfl rfl)).step (.publish rfl rfl)
  exact (published.step (.armed rfl)).step (.answered rfl)

/-- The client just configured may send, under the epoch it committed. -/
theorem permission_over_runs_configured : haltFlag servedPast = false ∧ served.held = none ∧
    (Pending served ∨ 1 ≤ (authority servedPast).epoch ∧
      served.committed = authority servedPast ∧ (Deciding served ∨ standing servedPast = true)) :=
  (permission_over_runs fresh_configured).1 rfl

/-- A configure that names another engagement is answered and not considered: the client
goes on sending under the one before it. -/
theorem mismatch_keeps_permission :
    ¬ ∀ past m, (system (js "a") fun _ => .ok []).History past m → m.pc = .reading →
      m.maySend = true → lastConfigureCommitted past = true := by
  intro all
  have read := fresh_configured.step (.read (configureFor (js "b")) rfl)
  have answered := (read.step (.unconsidered rfl rfl (by decide))).step (.answered rfl)
  have committed := all _ _ answered rfl rfl
  exact absurd committed (by decide)

end Client

end Hx.Bridge
