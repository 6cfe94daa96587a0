import Hx.Harness.Server

/-!
# Sessions: frames and calls in sequence

One read thread takes frames off the current connection while callers configure,
halt and resume. A call of `configure` is two events, its frame and its reply, so
that anything may happen between them; `halt` and `resume` are one event each,
returned or raised. `resume insertedUs none` is a call that returned.
-/

namespace Hx.Harness

open Hx.Library OperatorHalt

/-- Where the read thread stands on the connection of a generation: between frames,
before the halt look of a `hello`, inside a callback, or on its way to `_reset`. -/
inductive Reader where
  | idle
  | reading (gen : Nat)
  | reasserting (gen : Nat)
  | callback (gen : Nat)
  | closing (gen : Nat)

def Reader.after (gen : Nat) : Next → Reader
  | .close => .closing gen
  | .keep => .reading gen
  | .reassert => .reasserting gen
  | .callback => .callback gen

/-- `calls k` is the generation the configure call `k` started with, while it waits. -/
structure Session where
  station : Station
  reader : Reader
  calls : Nat → Option Nat

namespace Session

def server (m : Session) : BridgeServer := m.station.server

def withServer (m : Session) (s : BridgeServer) : Session :=
  { m with station := { m.station with server := s } }

inductive Event where
  | accept
  | receive (f : Incoming)
  | reassert (raises : Bool)
  | callback (raises : Bool)
  | drop
  | close
  | configure (k : Nat)
  | answered (k : Nat) (reply : Reply)
  | halt (raises : HaltStep → Bool) (c : HaltCall)
  | resume (insertedUs : Int) (outcome : Option ResumeStep)
  | sentinel (s : Sentinel)

/-- `_reassert_halt`: nothing to do, a frame that cannot be sent, or a halted link. -/
def reassert (raises : Bool) (gen : Nat) (m : Session) : Session :=
  if !m.station.durable.halted then { m with reader := .callback gen }
  else if raises || m.server.conn.isNone then { m with reader := .closing gen }
  else { m.withServer m.server.reasserted with reader := .callback gen }

inductive Step : Session → Event → Session → Prop where
  | accept {m : Session} : m.reader = .idle →
      Step m .accept
        { m.withServer m.server.serve with reader := .reading m.server.serve.generation }
  | receive {m : Session} {gen : Nat} (f : Incoming) : m.reader = .reading gen →
      Step m (.receive f)
        { m.withServer (m.server.handle f).1 with reader := .after gen (m.server.handle f).2 }
  | reassert {m : Session} {gen : Nat} (raises : Bool) : m.reader = .reasserting gen →
      Step m (.reassert raises) (m.reassert raises gen)
  | callback {m : Session} {gen : Nat} (raises : Bool) : m.reader = .callback gen →
      Step m (.callback raises) { m with reader := if raises then .closing gen else .reading gen }
  | drop {m : Session} {gen : Nat} : m.reader = .reading gen →
      Step m .drop { m with reader := .closing gen }
  | close {m : Session} {gen : Nat} : m.reader = .closing gen →
      Step m .close { m.withServer (m.server.reset gen) with reader := .idle }
  | configure {m : Session} {k : Nat} : m.calls k = none → m.server.mayConfigure = true →
      Step m (.configure k)
        { m with calls := Function.update m.calls k (some m.server.generation) }
  | answered {m : Session} {k gen : Nat} (reply : Reply) : m.calls k = some gen →
      Step m (.answered k reply)
        { m.withServer (m.server.configureAnswered gen reply).1 with
          calls := Function.update m.calls k none }
  | halt {m : Session} (raises : HaltStep → Bool) (c : HaltCall) :
      Step m (.halt raises c) { m with station := m.station.halt raises c }
  | resume {m : Session} (raises : ResumeStep → Bool) (insertedUs : Int) :
      Step m (.resume insertedUs (m.station.resumeOutcome raises))
        { m with station := m.station.resume raises insertedUs }
  | sentinel {m : Session} (s : Sentinel) :
      Step m (.sentinel s)
        { m with
          station :=
            { m.station with
              durable :=
                { m.station.durable with disk := { m.station.durable.disk with sentinel := s } } } }

/-- A server as its constructor leaves it, over any store. -/
def Starts (m : Session) : Prop :=
  (∃ id, m.server = BridgeServer.new id) ∧ m.reader = .idle ∧ ∀ k, m.calls k = none

def system : System Session Event where
  init := Starts
  step := Step

/-! ## The connection of a run -/

theorem generation_reset (gen : Nat) (s : BridgeServer) :
    s.generation ≤ (s.reset gen).generation := by
  unfold BridgeServer.reset
  split
  · exact Nat.le_refl _
  · exact Nat.le_succ _

theorem generation_handle (f : Incoming) (s : BridgeServer) :
    (s.handle f).1.generation = s.generation := by
  unfold BridgeServer.handle
  split
  · rfl
  split
  · split <;> rfl
  all_goals rfl

theorem generation_configureAnswered (gen : Nat) (reply : Reply) (s : BridgeServer) :
    (s.configureAnswered gen reply).1.generation = s.generation := by
  unfold BridgeServer.configureAnswered
  split
  · rfl
  · dsimp only
    split <;> rfl
  · rfl
  · split <;> rfl
  · split <;> rfl

theorem generation_haltEffect (c : HaltCall) (step : HaltStep) (h : Station) :
    (Station.haltEffect c step h).server.generation = h.server.generation := by
  cases step <;> rfl

theorem generation_resumeEffect (insertedUs : Int) (step : ResumeStep) (h : Station) :
    (Station.resumeEffect insertedUs step h).server.generation = h.server.generation := by
  cases step <;> rfl

/-- No step takes the generation back. -/
theorem generation_step {m m' : Session} {e : Event} (st : Step m e m') :
    m.server.generation ≤ m'.server.generation := by
  cases st with
  | accept => exact Nat.le_succ _
  | receive f => exact (generation_handle f m.server).ge
  | reassert raises =>
      unfold reassert
      split
      · exact Nat.le_refl _
      · split <;> exact Nat.le_refl _
  | callback => exact Nat.le_refl _
  | drop => exact Nat.le_refl _
  | close => exact generation_reset _ _
  | configure => exact Nat.le_refl _
  | answered reply => exact (generation_configureAnswered _ reply m.server).ge
  | halt raises c =>
      exact (runStages_frame (fun s : Station => s.server.generation)
        (fun step _ s => generation_haltEffect c step s) m.station).ge
  | resume raises insertedUs =>
      exact (runStages_frame (fun s : Station => s.server.generation)
        (fun step _ s => generation_resumeEffect insertedUs step s) m.station).ge
  | sentinel => exact Nat.le_refl _

theorem generation_run {m m' : Session} {es : List Event}
    (run : (system.startingAt m).History es m') : m.server.generation ≤ m'.server.generation := by
  induction run with
  | start same => exact same ▸ Nat.le_refl _
  | step _ st ih => exact Nat.le_trans ih (generation_step st)

/-! ## What lifts a halt -/

/-- The steps that keep a halted link halted: no second `hello` is accepted on it, no
configure is refused with an error that denies, and no `resume` raises after its
commit. -/
def KeepsHalt (m : Session) : Event → Prop
  | .receive f => m.server.state = .halted → (m.server.handle f).2 ≠ .reassert
  | .answered _ (.error cls _) => m.server.state = .halted → BridgeServer.denying cls = false
  | .resume _ outcome =>
      m.server.state = .halted → ∀ stage, outcome ≠ some (.durable stage)
  | _ => True

/-- A `resume` that raises at its frame or its commit leaves everything as it was. -/
theorem resume_eq_self {raises : ResumeStep → Bool} {insertedUs : Int} {h : Station}
    (unreturned : h.resumeOutcome raises ≠ none)
    (undurable : ∀ stage, h.resumeOutcome raises ≠ some (.durable stage)) :
    h.resume raises insertedUs = h := by
  cases sends : Station.resumeRaises raises h .send with
  | true => simp [Station.resume, completed, Station.resumeSteps, sends, runStages]
  | false =>
      cases commits : Station.resumeRaises raises h .commit with
      | true =>
          simp [Station.resume, completed, Station.resumeSteps, sends, commits, runStages,
            Station.resumeEffect]
      | false =>
          -- The first step that raises, if any, is then a durable one.
          exfalso
          cases outcome : h.resumeOutcome raises with
          | none => exact unreturned outcome
          | some step =>
              have raised := List.find?_some outcome
              cases step with
              | send => exact Bool.false_ne_true (sends.symm.trans raised)
              | commit => exact Bool.false_ne_true (commits.symm.trans raised)
              | durable stage => exact undurable stage outcome

theorem halted_haltEffect (c : HaltCall) (step : HaltStep) (h : Station)
    (halted : h.server.state = .halted) :
    (Station.haltEffect c step h).server.state = .halted := by
  cases step with
  | durable stage => exact halted
  | send => exact halted
  | commit => rfl

theorem halted_handle {f : Incoming} {s : BridgeServer} (halted : s.state = .halted)
    (unasserted : (s.handle f).2 ≠ .reassert) : (s.handle f).1.state = .halted := by
  unfold BridgeServer.handle at unasserted ⊢
  split
  · exact halted
  · rename_i version
    rw [if_neg version] at unasserted
    split
    · rename_i id greeting
      rw [greeting] at unasserted
      by_cases stranger : id ≠ some s.engagementId
      · rw [if_pos stranger]
        exact halted
      · simp [if_neg stranger] at unasserted
    · rfl
    all_goals exact halted

theorem halted_configureAnswered {gen : Nat} {reply : Reply} {s : BridgeServer}
    (halted : s.state = .halted)
    (kept : ∀ cls detail, reply = .error cls detail → BridgeServer.denying cls = false) :
    (s.configureAnswered gen reply).1.state = .halted := by
  cases reply with
  | error cls detail =>
      simp [BridgeServer.configureAnswered, kept cls detail rfl, halted]
  | epoch n =>
      simp only [BridgeServer.configureAnswered, halted, if_true]
      split
      · rfl
      · exact halted
  | badEpoch =>
      simp only [BridgeServer.configureAnswered]
      split <;> exact halted
  | _ => exact halted

/-- A halted link stays halted over a step that is neither a returned `resume` nor the
end of its connection. -/
theorem halted_step {m m' : Session} {e : Event} (st : Step m e m') (kept : KeepsHalt m e)
    (halted : m.server.state = .halted) (unlifted : ∀ us, e ≠ .resume us none)
    (same : m'.server.generation = m.server.generation) : m'.server.state = .halted := by
  cases st with
  | accept => exact halted
  | receive f => exact halted_handle halted (kept halted)
  | reassert raises =>
      unfold reassert
      split
      · exact halted
      · split
        · exact halted
        · rfl
  | callback => exact halted
  | drop => exact halted
  | @close gen =>
      -- A reset that applies advances the generation.
      have stale : m.server.reset gen = m.server := by
        unfold BridgeServer.reset
        split
        · rfl
        · rename_i current
          have advanced : (m.server.reset gen).generation = m.server.generation + 1 := by
            rw [BridgeServer.reset, if_neg current]
          exact absurd (advanced.symm.trans same) (Nat.succ_ne_self _)
      exact (congrArg BridgeServer.state stale).trans halted
  | configure => exact halted
  | @answered k gen reply waiting =>
      refine halted_configureAnswered halted ?_
      intro cls detail refused
      subst refused
      exact kept halted
  | halt raises c =>
      exact runStages_keeps (fun s : Station => s.server.state = .halted)
        (fun step _ s => halted_haltEffect c step s) halted
  | resume raises insertedUs =>
      have unreturned : m.station.resumeOutcome raises ≠ none := fun returned =>
        unlifted insertedUs (by rw [returned])
      exact (congrArg (fun s : Station => s.server.state)
        (resume_eq_self unreturned (kept halted))).trans halted
  | sentinel => exact halted

/-- In a run whose steps all keep a halt, a link that was halted is not configured
until a `resume` has returned or the connection has been replaced. -/
theorem halted_until_resumed {m m' : Session} {es : List Event}
    (run : ((system.restrict KeepsHalt).startingAt m).History es m')
    (halted : m.server.state = .halted) (unlifted : ∀ us, .resume us none ∉ es)
    (same : m'.server.generation = m.server.generation) : m'.server.state ≠ .configured := by
  suffices m'.server.state = .halted by simp [this]
  induction run with
  | start start => exact start ▸ halted
  | @step past s t e run st ih =>
      have whole : ((system.startingAt m).restrict KeepsHalt).History past s := run
      have before := generation_run whole.of_restrict
      have after : s.server.generation ≤ t.server.generation := generation_step st.1
      have held := ih (fun us => List.not_mem_of_not_mem_cons (unlifted us)) (by omega)
      exact halted_step st.1 st.2 held
        (fun us lifted => unlifted us (lifted ▸ List.mem_cons_self)) (by omega)

/-- A session before its first connection, over a store with no halt. -/
def opened : Session where
  station :=
    { durable := .openedOn ⟨"/srv/engagement", "e-1", false, none⟩ .absent []
      server := .new "e-1" }
  reader := .idle
  calls := fun _ => none

def greeting : Incoming := ⟨some protocolVersion, .hello (some "e-1")⟩

def haltedFrame : Incoming := ⟨some protocolVersion, .halted⟩

/-- The session after `opened` was greeted, configured and halted by its peer. -/
def haltedByPeer : Session where
  station :=
    { opened.station with server := ⟨"e-1", .halted, 1, some 1, 1, 0⟩ }
  reader := .reading 1
  calls := Function.update (Function.update (fun _ => none) 0 (some 1)) 0 none

theorem haltedByPeer_run : system.History
    [.callback false, .receive haltedFrame, .answered 0 (.epoch 1), .configure 0,
      .callback false, .reassert false, .receive greeting, .accept] haltedByPeer := by
  have fresh : system.History [] opened := .start ⟨⟨"e-1", rfl⟩, rfl, fun _ => rfl⟩
  have greeted := (fresh.step (.accept rfl)).step (.receive greeting rfl)
  have looked := (greeted.step (.reassert false rfl)).step (.callback false rfl)
  have asked := looked.step (.configure (k := 0) rfl rfl)
  have configured := asked.step (.answered (.epoch 1) (k := 0) rfl)
  exact (configured.step (.receive haltedFrame rfl)).step (.callback false rfl)

theorem halted_until_resumed_reconfigured :
    ∃ m', ((system.restrict KeepsHalt).startingAt haltedByPeer).History
        [.answered 0 (.epoch 2), .configure 0] m' ∧
      haltedByPeer.server.state = .halted ∧ m'.server.generation = 1 ∧
      m'.server.state ≠ .configured := by
  have halted : ((system.restrict KeepsHalt).startingAt haltedByPeer).History [] haltedByPeer :=
    .start rfl
  have asked := halted.step ⟨.configure (k := 0) rfl rfl, trivial⟩
  have answered := asked.step ⟨.answered (.epoch 2) (k := 0) rfl, trivial⟩
  refine ⟨_, answered, rfl, rfl, halted_until_resumed answered rfl ?_ rfl⟩
  simp

/-- A configure refused with `bad_config` on a halted link, then one that is accepted:
the link is configured and nothing resumed it. -/
theorem configured_without_resume :
    ¬ ∀ past m es m', system.History past m → m.server.state = .halted →
      (system.startingAt m).History es m' → (∀ us, .resume us none ∉ es) →
      m'.server.generation = m.server.generation → m'.server.state ≠ .configured := by
  intro holds
  have halted : (system.startingAt haltedByPeer).History [] haltedByPeer := .start rfl
  have refused := (halted.step (.configure (k := 0) rfl rfl)).step
    (.answered (.error (some "bad_config") none) (k := 0) rfl)
  have accepted := (refused.step (.configure (k := 0) rfl rfl)).step
    (.answered (.epoch 2) (k := 0) rfl)
  exact holds _ _ _ _ haltedByPeer_run rfl accepted (by simp) rfl rfl

end Session

end Hx.Harness
