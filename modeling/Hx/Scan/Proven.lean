import Hx.Scan.Vouched

/-!
# What `proven` says of a run

The window of the bracket and the log move together from row to row. A run whose closing
canary settles `proven` has a vouched log; a run that is raised is never left `proven`,
unless what comes after the closing canary fails.
-/

namespace Hx.Scan

open Hx.Checks Hx.Library Hx.Python Hx.Store Prog

/-! ## The window -/

/-- What the window has kept of the log. -/
structure Watch (b : Bracket) (log : List Event) : Prop where
  opened : b.window.firstOpenPassed = some true
  every : b.window.dueEvery = b.declared.liveness.everyNProbes
  guarded : b.window.anyFailure = false → Guarded b.target b.resolved.generation log
  paced : Paced b.declared.liveness.everyNProbes log
  since : b.due = false →
    sinceCanary log = b.window.since ∧ b.window.since < b.window.dueEvery

/-- The bracket in hand, if there is one, has kept watch. -/
def Watched (p : Pass) : Prop := ∀ b, p.bracket = some b → Watch b p.log

/-- What counting probes does to a bracket. -/
theorem note_eq (b : Bracket) (n : Nat) : ∃ since due,
    b.note n = { b with window := { b.window with since := since }, due := due } ∧
    (due = false → b.due = false ∧ since = b.window.since + n ∧
      (b.window.since < b.window.dueEvery → since < b.window.dueEvery)) := by
  induction n generalizing b with
  | zero => exact ⟨b.window.since, b.due, rfl, fun free => ⟨free, rfl, id⟩⟩
  | succ n ih =>
      rw [Bracket.note]
      by_cases next : b.window.dueEvery ≤ b.window.since + 1
      · have full : b.window.noteProbe = (true, { b.window with since := 0 }) := if_pos next
        rw [full]
        obtain ⟨since, due, same, counted⟩ := ih { b with
          window := { b.window with since := 0 }, due := b.due || true }
        refine ⟨since, due, same, fun free => ?_⟩
        have owed : (b.due || true) = false := (counted free).1
        rw [Bool.or_true] at owed
        contradiction
      · have more : b.window.noteProbe =
            (false, { b.window with since := b.window.since + 1 }) := if_neg next
        rw [more]
        obtain ⟨since, due, same, counted⟩ := ih { b with
          window := { b.window with since := b.window.since + 1 }, due := b.due || false }
        refine ⟨since, due, same, fun free => ?_⟩
        obtain ⟨free', total, below⟩ := counted free
        refine ⟨(Bool.or_eq_false_iff.1 free').1, ?_, fun _ => below (Nat.lt_of_not_le next)⟩
        exact total.trans (Nat.add_right_comm _ _ _)

section Row

variable {e : Env} {runId : Nat} {s : Surface} {c : Check} {p q : Pass} {w : Work} {row : CheckRun}

theorem sinceCanary_events {row : Nat} {generation : Option Nat} {log : List Event} :
    sinceCanary (w.events row s c generation ++ log) = w.sent + sinceCanary log := by
  rw [Work.events, Work.sent]
  cases w.verdict with
  | none =>
      cases w.drove with
      | none => exact (Nat.zero_add _).symm
      | some d => rfl
  | some v =>
      cases w.drove with
      | none => rfl
      | some d => exact Nat.zero_add _

theorem held_events {row generation : Nat} {target : Origin} :
    ∀ event ∈ w.events row s c (some generation), event.Held target generation := by
  intro event mem
  rcases List.mem_append.1 mem with mem | mem
  · cases verdict : w.verdict with
    | none =>
        rw [verdict] at mem
        exact absurd mem List.not_mem_nil
    | some v =>
        rw [verdict] at mem
        rw [List.mem_singleton.1 mem]
        trivial
  · cases drove : w.drove with
    | none =>
        rw [drove] at mem
        exact absurd mem List.not_mem_nil
    | some d =>
        rw [drove] at mem
        rw [List.mem_singleton.1 mem]
        rfl

theorem Paced.events {every row : Nat} {generation : Option Nat} {log : List Event}
    (paced : Paced every log) (pace : sinceCanary log + 1 ≤ every) :
    Paced every (w.events row s c generation ++ log) := by
  have driven : Paced every
      ((w.drove.map fun d => Event.probes row generation d.1 d.2).toList ++ log) := by
    cases w.drove with
    | none => exact paced
    | some d => exact paced.cons fun _ => pace
  rw [Work.events, List.append_assoc]
  cases w.verdict with
  | none => exact driven
  | some v => exact driven.cons False.elim

/-- A row counts what it sent towards the next canary. -/
theorem Watched.counts (watched : Watched p) (notDue : p.NotDue)
    (done : RowDone e runId s c p q w row) : Watched q := by
  intro b' same
  rw [done.bracket] at same
  cases bracket : p.bracket with
  | none =>
      rw [bracket] at same
      contradiction
  | some b =>
      rw [bracket] at same
      cases same
      obtain ⟨opened, every, guarded, paced, since⟩ := watched b bracket
      obtain ⟨counted, below⟩ := since (notDue b bracket)
      obtain ⟨since', due, noted, count⟩ := note_eq b w.sent
      have log : q.log = w.events p.store.nextId s c (some b.resolved.generation) ++ p.log := by
        rw [done.log, bracket]
        rfl
      rw [log, show (fun b => Bracket.note b w.sent) b = _ from noted]
      refine ⟨opened, every, fun sound => (guarded sound).append held_events, ?_, ?_⟩
      · refine paced.events ?_
        rw [counted, ← every]
        exact below
      · intro free
        obtain ⟨_, total, below'⟩ := count free
        rw [sinceCanary_events, counted]
        exact ⟨(Nat.add_comm _ _).trans total.symm, below' below⟩

end Row

/-! ## The canaries -/

section Canary

variable {e : Env} {p : Pass} {b : Bracket}

theorem wp_canaryIfDue_watched (watched : Watched p) :
    wp (canaryIfDue e) (fun _ => Watched) (fun _ _ => True) p := by
  rw [canaryIfDue, wp_bind, wp_gets]
  cases bracket : p.bracket with
  | none => exact watched
  | some b =>
      simp only
      split
      · obtain ⟨opened, every, guarded, paced, _⟩ := watched b bracket
        rw [setBracket, wp_bind, wp_modify, wp_bind]
        refine wp_mono wp_settle ?_ fun _ _ _ => trivial
        rintro s q ⟨_, ⟨r, same⟩, log⟩
        rw [setBracket, wp_bind, wp_modify]
        split
        · rename_i settled
          rw [setBracket, wp_modify]
          rintro b' same'
          cases same'
          obtain ⟨sent, refused, older, log, opening, once⟩ := log settled
          have whole : q.log =
              .canary b.target r.generation true sent refused :: (older ++ p.log) := by
            rw [log, same]
            rfl
          have quiet : Paced b.declared.liveness.everyNProbes (older ++ p.log) :=
            paced.append fun event mem => (opening event mem).not_isProbes
          have paced' : Paced b.declared.liveness.everyNProbes q.log := by
            rw [whole]
            exact quiet.cons False.elim
          have started : sinceCanary q.log = 0 := by
            rw [whole]
            rfl
          rw [same]
          refine ⟨?_, every, ?_, paced', fun _ => ⟨started, ?_⟩⟩
          · exact congrArg some (congrArg (Option.getD · true) opened)
          · intro sound
            have sound' : ((b.window.anyFailure || !s.raw) || !true) = false := sound
            rw [Bool.not_true, Bool.or_false, Bool.or_eq_false_iff, Bool.not_eq_false'] at sound'
            obtain ⟨none_, once⟩ := once sound'.2
            have kept : r = b.resolved := by
              have resolved := congrArg Bracket.resolved (same.symm.trans once)
              exact resolved
            have one : q.log =
                [.canary b.target b.resolved.generation true sent refused] ++ p.log := by
              rw [whole, none_, kept]
              rfl
            have guarded' : Guarded b.target b.resolved.generation q.log := by
              rw [one]
              refine (guarded sound'.1).append ?_
              intro event mem
              rw [List.mem_singleton.1 mem]
              exact ⟨rfl, rfl, rfl⟩
            exact kept ▸ guarded'
          · exact every ▸ b.declared.liveness.positive
        · trivial
      · exact watched

theorem wp_startBracket_watched {o : Option Bracket} (log : p.log = []) (none_ : p.bracket = none)
    (fresh : ∀ b, o = some b → b.Fresh) :
    wp (startBracket e o) (fun _ => Watched) (fun _ _ => True) p := by
  cases o with
  | none =>
      intro b same
      have none_ : none = some b := none_.symm.trans same
      contradiction
  | some b =>
      obtain ⟨window, due⟩ := fresh b rfl
      rw [startBracket, wp_bind, setBracket, wp_modify, start, wp_bind]
      apply wp_registers
      · intro t
        rw [wp_bind]
        refine wp_mono wp_settle ?_ fun _ _ _ => trivial
        rintro s q ⟨_, ⟨r, same⟩, answered⟩
        rw [setBracket, wp_bind, wp_modify]
        split
        · rename_i settled
          rintro b' same'
          cases same'
          obtain ⟨sent, refused, older, log', opening, _⟩ := answered settled
          have whole : q.log = .canary b.target r.generation true sent refused :: older := by
            rw [log', same]
            exact congrArg (_ :: ·) ((congrArg (older ++ ·) log).trans (List.append_nil _))
          have quiet : Paced b.declared.liveness.everyNProbes (older ++ []) :=
            paced_nil.append fun event mem => (opening event mem).not_isProbes
          rw [List.append_nil] at quiet
          have paced : Paced b.declared.liveness.everyNProbes q.log := by
            rw [whole]
            exact quiet.cons False.elim
          have started : sinceCanary q.log = 0 := by
            rw [whole]
            rfl
          rw [same, window, settled]
          refine ⟨rfl, rfl, fun _ => ?_, paced, fun _ => ⟨started, b.declared.liveness.positive⟩⟩
          exact ⟨[], sent, refused, older, whole, opening, fun _ mem => absurd mem List.not_mem_nil⟩
        · trivial
      · exact fun _ _ => trivial

end Canary

/-- The loop keeps watch. -/
theorem watched_keeps (e : Env) (runId : Nat) (earlier : List CheckRun) :
    Keeps e runId (fun l p => Rows runId earlier l p ∧ Watched p) fun _ => True where
  like l p q holds like := by
    refine ⟨(Rows.keeps e runId earlier).like l p q holds.1 like, ?_⟩
    obtain ⟨_, _, _, rfl⟩ := like
    exact holds.2
  gives _ _ _ := trivial
  canary l p holds := wp_mono
    (wp_and ((Rows.keeps e runId earlier).canary l p holds.1) (wp_canaryIfDue_watched holds.2))
    (fun _ _ h => h) fun _ _ _ => trivial
  counted l p holds := ⟨(Rows.keeps e runId earlier).counted l p holds.1, holds.2⟩
  heartbeat l p at_ holds := ⟨(Rows.keeps e runId earlier).heartbeat l p at_ holds.1, holds.2⟩
  late l p s holds := by
    refine wp_mono (wp_and ((Rows.keeps e runId earlier).late l p s holds.1)
      (wp_skipRest (I := fun _ q => Watched q) (B := fun _ => True) ?_ ?_ ?_ ?_ holds.2))
      ?_ fun _ _ _ => trivial
    · rintro _ p q watched ⟨_, _, _, rfl⟩
      exact watched
    · exact fun _ _ _ watched => watched
    · exact fun _ _ _ => trivial
    · exact fun _ _ _ _ _ => trivial
    · rintro _ _ ⟨rows, r, watched, rfl⟩
      exact ⟨rows, watched⟩
  row l p q s c holds notDue ends := by
    obtain ⟨w, row, done⟩ := ends.done holds.1.issued
    exact ⟨(Rows.keeps e runId earlier).row l p q s c holds.1 notDue ends,
      holds.2.counts notDue done⟩
  breaks _ _ _ _ _ _ _ := trivial

/-! ## The run row -/

section Recorded

variable {e : Env} {runId : Nat} {p q : Pass} {state : IdentityState}

theorem Pass.Quiet.recorded (h : p.Quiet q) :
    Recorded runId state q.store ↔ Recorded runId state p.store := by
  rw [h.store_eq]

/-- Before the closing canary is answered nothing is said of the identity. -/
theorem unrecorded_keeps (e : Env) (runId : Nat) (state : IdentityState) :
    Keeps e runId (fun _ p => ¬ Recorded runId state p.store)
      fun p => ¬ Recorded runId state p.store := by
  have rowKeeps : ∀ s c, RowKeeps runId s c fun p => ¬ Recorded runId state p.store := fun s c =>
    { like := fun p q unsaid like => by rw [like.store_eq]; exact unsaid
      opened := fun _ unsaid => unsaid
      drove := fun _ _ _ _ unsaid => unsaid
      returned := fun _ _ _ _ unsaid => unsaid
      filed := fun _ _ unsaid => unsaid
      skipped := fun _ _ _ _ unsaid => unsaid
      spent := fun _ unsaid => unsaid
      closed := fun _ _ _ _ unsaid => unsaid }
  exact
    { like := fun _ p q unsaid like => by rw [like.store_eq]; exact unsaid
      gives := fun _ _ unsaid => unsaid
      canary := fun _ p unsaid => wp_mono (wp_canaryIfDue_quiet .refl)
        (fun _ _ h => h.recorded.not.2 unsaid) fun _ _ h => h.recorded.not.2 unsaid
      counted := fun _ _ unsaid => unsaid
      heartbeat := fun _ p at_ unsaid => by
        refine (recorded_onRun ?_).not.2 unsaid
        intro r
        split
        · exact ⟨rfl, rfl⟩
        · exact ⟨rfl, rfl⟩
      late := fun _ p s unsaid => by
        refine wp_mono (wp_skipRest (I := fun _ q => ¬ Recorded runId state q.store)
          (B := fun q => ¬ Recorded runId state q.store) ?_ ?_ ?_ ?_ unsaid) ?_ fun _ _ h => h
        · exact fun _ p q unsaid like => by rw [like.store_eq]; exact unsaid
        · exact fun _ _ _ unsaid => unsaid
        · exact fun _ _ unsaid => unsaid
        · exact fun _ _ _ _ unsaid => unsaid
        · rintro _ _ ⟨r, unsaid, rfl⟩
          exact unsaid
      row := fun _ p q s c unsaid _ ends => (rowKeeps s c).ends unsaid ends
      breaks := fun _ p q s c unsaid breaks => (rowKeeps s c).breaks unsaid breaks }

/-- What is recorded last is what is on the row. -/
theorem recorded_recordIdentity {st : Engagement} {id : String} {generation : Nat}
    {said : IdentityState}
    (recorded : Recorded runId state (st.recordIdentity runId id generation said)) :
    said = state := by
  obtain ⟨r, mem, own, word⟩ := recorded
  obtain ⟨r', _, rfl⟩ := List.mem_map.1 mem
  by_cases same : r'.id = runId
  · rw [if_pos same] at word
    exact Option.some.inj word
  · rw [if_neg same] at own
    contradiction

/-! ## The closing canary -/

/-- The run row was written `proven`, over a log that is sealed. -/
structure Settles (p : Pass) (next : Nat) : Prop where
  bracket : ∃ b, p.bracket = some b ∧
    Sealed b.target b.declared.liveness.everyNProbes b.resolved.generation p.log
  settled : .settled .proven next ∈ p.log

theorem stateForRun_proven {w : Window} (proven : w.stateForRun = .proven) :
    w.firstOpenPassed = some true ∧ w.anyFailure = false := by
  rw [Window.stateForRun] at proven
  split at proven
  · rename_i opened
    refine ⟨opened, ?_⟩
    cases failed : w.anyFailure with
    | false => rfl
    | true =>
        rw [failed] at proven
        contradiction
  · contradiction

theorem Watch.sealed_ {b : Bracket} {sent : Nat} {refused : Tally} {log : List Event}
    (watch : Watch b log) (sound : b.window.anyFailure = false) :
    Sealed b.target b.declared.liveness.everyNProbes b.resolved.generation
      (.canary b.target b.resolved.generation true sent refused :: log) := by
  refine ⟨?_, watch.paced.cons False.elim, [], sent, refused, log, rfl,
    fun _ mem => absurd mem List.not_mem_nil⟩
  have held : ∀ event ∈ [Event.canary b.target b.resolved.generation true sent refused],
      event.Held b.target b.resolved.generation := by
    intro event mem
    rw [List.mem_singleton.1 mem]
    exact ⟨rfl, rfl, rfl⟩
  exact (watch.guarded sound).append held

theorem wp_settleBracket_proven (watched : Watched p)
    (unsaid : ¬ Recorded runId .proven p.store) :
    wp (settleBracket e runId)
      (fun _ q => Recorded runId .proven q.store → Settles q q.tick)
      (fun _ q => ¬ Recorded runId .proven q.store) p := by
  rw [settleBracket, wp_bind, wp_gets]
  cases bracket : p.bracket with
  | none => exact fun recorded => absurd recorded unsaid
  | some b =>
      simp only
      rw [wp_bind, finish, wp_bind]
      apply wp_sendCanary
      · intro got passed answered
        simp only [setBracket]
        rw [wp_modify, wp_bind, wp_gets]
        apply wp_settleIdentity
        · intro recorded
          have proven : (b.window.close passed).stateForRun = .proven :=
            recorded_recordIdentity recorded
          have sound : (b.window.anyFailure || !passed) = false := (stateForRun_proven proven).2
          rw [Bool.or_eq_false_iff, Bool.not_eq_false'] at sound
          obtain ⟨sound, rfl⟩ := sound
          have log : (p.canaried b got).log = .canary b.target b.resolved.generation true got.sent
              got.refusals :: p.log := by
            rw [Pass.canaried, answered]
            rfl
          have closed : Sealed b.target b.declared.liveness.everyNProbes b.resolved.generation
              (p.canaried b got).log := by
            rw [log]
            exact (watched b bracket).sealed_ sound
          have quiet : ∀ event ∈
              [Event.settled (b.window.close true).stateForRun (p.tick + 1 + 1)],
              ¬ event.IsProbes ∧ event.Held b.target b.resolved.generation := by
            intro event mem
            rw [List.mem_singleton.1 mem]
            exact ⟨id, trivial⟩
          refine ⟨⟨{ b with window := b.window.close true }, rfl, closed.append quiet⟩, ?_⟩
          rw [← proven]
          exact List.mem_cons_self
        · exact fun _ => unsaid
      · exact fun _ _ _ => unsaid

/-- The retirement leaves the seal. -/
theorem wp_markUnobserved_proven
    (settles : Recorded runId .proven p.store → Settles p p.tick) :
    wp (markUnobserved e runId)
      (fun _ q => Recorded runId .proven q.store →
        ∃ next, Settles q next ∧ (q.tick = next ∨ q.tick = next + 1))
      (fun _ q => Recorded runId .proven q.store → ∃ next, Settles q next ∧ q.tick = next + 1)
      p := by
  apply wp_markUnobserved
  · exact fun _ recorded => ⟨p.tick, settles recorded, .inl rfl⟩
  · intro recorded
    rw [Recorded, retire_eq] at recorded
    obtain ⟨⟨b, bracket, sealed_⟩, settled⟩ := settles recorded
    refine ⟨p.tick, ⟨⟨b, bracket, sealed_.append ?_⟩, List.mem_append_right _ settled⟩, .inr rfl⟩
    intro event mem
    obtain ⟨f, _, rfl⟩ := List.mem_map.1 mem
    exact ⟨id, trivial⟩
  · intro exc recorded
    obtain ⟨bracket, settled⟩ := settles recorded
    exact ⟨p.tick, ⟨bracket, settled⟩, rfl⟩

theorem wp_body_proven (issued : p.store.Issued) (log : p.log = []) (none_ : p.bracket = none)
    (unsaid : ¬ Recorded runId .proven p.store) :
    wp (body e runId)
      (fun _ q => Recorded runId .proven q.store →
        ∃ next, Settles q next ∧ (q.tick = next ∨ q.tick = next + 1))
      (fun _ q => Recorded runId .proven q.store → ∃ next, Settles q next ∧ q.tick = next + 1)
      p := by
  have unsaid' : ∀ q, p.Quiet q → Recorded runId .proven q.store →
      ∃ next, Settles q next ∧ q.tick = next + 1 :=
    fun q h recorded => absurd (h.recorded.1 recorded) unsaid
  have asked := Pass.Quiet.tick (p := p) .refl (p.tick + 1)
  rw [body, wp_bind, wp_ask, wp_bind]
  apply wp_returns
  · intro surfaces found
    rw [wp_bind]
    refine wp_mono wp_identityBracket ?_ fun _ q like => unsaid' q (asked.like like)
    rintro o q ⟨like, fresh⟩
    have h := asked.like like
    rw [wp_bind]
    have opening : q.log = [] ∧ q.bracket = none := by
      obtain ⟨_, _, _, rfl⟩ := like
      exact ⟨log, none_⟩
    refine wp_mono (wp_and (wp_startBracket_quiet h)
      (wp_startBracket_watched opening.1 opening.2 fresh)) ?_ fun _ q h => unsaid' q h.1
    rintro _ q ⟨h, watched⟩
    rw [wp_bind]
    have rows : Rows runId (rowsOf q.store runId) [] q := by
      refine ⟨?_, [], (List.append_nil _).symm, rfl, rfl⟩
      rw [h.store_eq]
      exact issued
    have keeps := (watched_keeps e runId (rowsOf q.store runId)).and
      (unrecorded_keeps e runId .proven)
    refine wp_mono (keeps.wp_loop surfaces ⟨⟨rows, watched⟩, h.recorded.not.2 unsaid⟩) ?_
      fun _ q h recorded => absurd recorded h.2
    rintro _ q ⟨⟨_, watched⟩, unsaid⟩
    rw [wp_bind]
    refine wp_mono (wp_settleBracket_proven watched unsaid) ?_
      fun _ q unsaid recorded => absurd recorded unsaid
    exact fun _ q settles => wp_markUnobserved_proven settles
  · exact fun _ _ => unsaid' _ asked

/-! ## The ways out -/

/-- Neither of the statements that can come after `proven` was written failed: the close of
the run, or the write a halt takes it back with. -/
def Kept (e : Env) (log : List Event) : Prop :=
  ∀ next, .settled .proven next ∈ log → e.fault (next + 1) = none ∧ e.fault (next + 2) = none

theorem haltState_ne_proven (exc : Exc) : haltState exc ≠ .proven := by
  cases exc with
  | identityDead message stopReason => exact nofun
  | identityError text => exact nofun
  | refused text => exact nofun
  | exception type text => exact nofun
  | interrupt type text => exact nofun

theorem wp_halt_unsaid {exc : Exc} {Q : Unit → Pass → Prop}
    (unsaid : ¬ Recorded runId .proven p.store) :
    wp (halt e runId exc) Q (fun _ q => ¬ Recorded runId .proven q.store) p := by
  apply wp_halt (B := fun q => ¬ Recorded runId .proven q.store) unsaid
  · exact fun q b _ recorded => haltState_ne_proven exc (recorded_recordIdentity recorded)
  · exact fun q t unsaid => unsaid
  · exact fun q at_ reason t unsaid => recorded_closeRun.not.2 unsaid
  · exact fun q t unsaid => unsaid

/-- A halt after the closing canary takes `proven` back. -/
theorem wp_halt_proven {exc : Exc} {Q : Unit → Pass → Prop}
    (settles : Recorded runId .proven p.store → ∃ next, Settles p next ∧ p.tick = next + 1) :
    wp (halt e runId exc) Q
      (fun _ q => Kept e q.log → ¬ Recorded runId .proven q.store) p := by
  by_cases recorded : Recorded runId .proven p.store
  · obtain ⟨next, ⟨⟨b, bracket, _⟩, settled⟩, tick⟩ := settles recorded
    rw [halt, wp_bind, wp_gets, bracket]
    simp only
    rw [wp_bind, settleIdentity, summarise, wp_bind, wp_modify, wp_bind, wp_write_iff]
    cases fault : e.fault p.tick with
    | some exc =>
        intro kept
        have written := (kept next settled).1
        rw [← tick, fault] at written
        contradiction
    | none =>
        rw [Option.elim_none, wp_modify, wp_bind, wp_gets, wp_bind]
        have taken : ¬ Recorded runId .proven
            (p.store.recordIdentity runId b.resolved.id b.resolved.generation (haltState exc)) :=
          fun recorded => haltState_ne_proven exc (recorded_recordIdentity recorded)
        apply wp_close_run
        · exact fun _ _ _ => recorded_closeRun.not.2 taken
        · exact fun _ _ _ => taken
  · exact wp_mono (wp_halt_unsaid recorded) (fun _ _ h => h) fun _ _ unsaid _ => unsaid

/-- Nothing is under the run yet that a pass would share it with. -/
def Unshared (runId : Nat) (st : Engagement) : Prop :=
  rowsOf st runId = [] ∧ ¬ Recorded runId .proven st

/-- The log is one of a proven run. -/
def Bracketed (p : Pass) : Prop :=
  ∃ b, p.bracket = some b ∧ Vouched b.target b.declared.liveness.everyNProbes p.log

theorem wp_runUnder_proven (issued : p.store.Issued) (log : p.log = []) (none_ : p.bracket = none)
    (unsaid : ¬ Recorded runId .proven p.store) :
    wp (runUnder e runId) (fun _ q => Recorded runId .proven q.store → Bracketed q)
      (fun _ q => Kept e q.log → ¬ Recorded runId .proven q.store) p := by
  rw [runUnder, wp_bind, wp_attempt]
  apply wp_mono (wp_body_proven issued log none_ unsaid)
  · intro _ q settles
    simp only
    rw [wp_bind, wp_gets, close, wp_bind, wp_ask, wp_write_iff]
    cases fault : e.fault (q.tick + 1) with
    | none =>
        intro recorded
        obtain ⟨_, ⟨⟨b, bracket, sealed_⟩, _⟩, _⟩ := settles (recorded_closeRun.1 recorded)
        exact ⟨b, bracket, sealed_.vouched⟩
    | some exc =>
        intro kept recorded
        obtain ⟨next, ⟨_, settled⟩, tick⟩ := settles recorded
        obtain ⟨first, second⟩ := kept next settled
        rcases tick with same | same
        · rw [same, first] at fault
          contradiction
        · rw [same, second] at fault
          contradiction
  · exact fun exc q settles => wp_halt_proven settles

/-- A pass over a run of its own that is left `proven` is bracketed by its canaries; one
that is raised is not left so, if what comes after the closing canary is kept. -/
theorem proven_bracketed {st : Engagement} (issued : st.Issued)
    (own : Unshared (st.handedBack .scan (e.now 0)) st) :
    wp (run e)
      (fun _ p => Recorded (st.handedBack .scan (e.now 0)) .proven p.store → Bracketed p)
      (fun _ p => Kept e p.log → ¬ Recorded (st.handedBack .scan (e.now 0)) .proven p.store)
      (Pass.begin st) := by
  rw [run]
  split
  · exact fun recorded => absurd recorded own.2
  · rw [wp_bind]
    apply wp_mono (wp_currentRun (p := Pass.begin st) issued)
    · rintro runId q ⟨rfl, _, issued, ⟨runs, next, t, rfl⟩, states⟩
      exact wp_runUnder_proven issued rfl rfl fun recorded => own.2 (states _ _ recorded)
    · rintro _ q ⟨⟨_, states⟩, _⟩ _ recorded
      exact own.2 (states _ _ recorded)

end Recorded

/-! ## A run that is not closed -/

def probing : Check := { idleCheck with klass := "injection", hook := .probes }

/-- A session that every canary proves. -/
def session : Identity where
  id := "user"
  strategy := .static
  header := "Cookie"
  valueFromEnv := some "SESSION"
  liveness := ⟨"/me", [], none, 1, Nat.le_refl 1⟩

/-- One surface, one probe sent to it under a session that stays live. -/
def scanning : Env :=
  { looking (.ofVerdict (.clean [])) with
    checks := [probing]
    surfaces := fun _ => .ok [{ front with exemplar := some "x" }]
    exchanges := fun _ _ => .ok [⟨"x", some "blob"⟩]
    requestPath := fun _ => .ok (some "/")
    blob := fun _ _ => .ok (some [])
    bridged := true
    identity := some ⟨"user", "Cookie", [Library.chr 97], 1⟩
    identities := [session]
    get := fun _ _ _ _ => .response ⟨some 200, [], []⟩
    probes := fun _ _ _ _ _ _ => ⟨.verdict (.ofVerdict (.clean [])), 1, []⟩ }

/-- The statement that closes the run fails. -/
def unclosed : Env :=
  { scanning with
    fault := fun t => if t = 16 then some (.exception "OperationalError" "disk full") else none }

/-- The run is raised, and its row is left `proven`. -/
theorem unclosed_proven :
    (run unclosed (Pass.begin {})).1 = .error (.exception "OperationalError" "disk full") ∧
    Recorded 0 .proven (run unclosed (Pass.begin {})).2.store :=
  ⟨rfl, _, List.mem_cons_self, rfl, rfl⟩

/-- Where it is closed, the probe is between two canaries. -/
theorem scanning_bracketed : (run scanning (Pass.begin {})).1 = .ok () ∧
    Recorded 0 .proven (run scanning (Pass.begin {})).2.store ∧
    Bracketed (run scanning (Pass.begin {})).2 := by
  have returned : (run scanning (Pass.begin {})).1 = .ok () := rfl
  have recorded : Recorded (Engagement.handedBack {} .scan (scanning.now 0)) .proven
      (run scanning (Pass.begin {})).2.store := ⟨_, List.mem_cons_self, rfl, rfl⟩
  have unsaid : ¬ Recorded (Engagement.handedBack {} .scan (scanning.now 0)) .proven {} :=
    fun ⟨_, mem, _⟩ => List.not_mem_nil mem
  have bracketed := proven_bracketed (e := scanning) issued_new ⟨rfl, unsaid⟩
  rw [wp, returned] at bracketed
  exact ⟨returned, recorded, bracketed recorded⟩

end Hx.Scan
