import Hx.Store.Lifecycle

/-!
# Runs nobody keeps alive

A run whose harness died is to end in `error`. `reap_stale` sees to it, and `current_run`, which
asks only for the shorter window, completes such a run if it comes to it first; so does a
`close_run` of somebody else. A process that dies leaves its operation where it is.
-/

namespace Hx.Store

open Hx.Library

/-- `stale_before_us`, with the default window. -/
def staleBefore (at_ : Int) : Int := at_ - idleCloseUs * 2

/-- The process that opened a run. -/
def openedBy (id : Nat) : List Event → Option Nat
  | [] => none
  | .ran p (.insert id' _ _) :: past => if id' = id then some p else openedBy id past
  | _ :: past => openedBy id past

/-- The clock reading of the operation a process is in. -/
def Phase.reading : Phase → Option Int
  | .idle | .returning _ => none
  | .reaping at_ _ | .idling _ _ _ at_ | .opening _ at_ => some at_

/-- When a run is resolved: what the caller read, which is not always what it writes. -/
def moment (s : Shared) : Event → Option Int
  | .ran p (.stop _ at_ _ _) => some ((s.phase p).reading.getD at_)
  | _ => none

/-- A run that is `running`, and stale. -/
def StaleAt (rows : List RunRow) (id : Nat) (at_ : Int) : Prop :=
  ∃ r, rowOf id rows = some r ∧ isStale r.run (staleBefore at_) = true

/-- What a resolution of a run has to be: `error` if `current_run` or `reap_stale` resolves a stale
one, and not `completed` by a stranger unless there was a heartbeat within the window. -/
def Resolves (past : List Event) (s : Shared) (e : Event) (t : Shared) : Prop :=
  ∀ id r r' stop, rowOf id s.rows = some r → r.stop = none → rowOf id t.rows = some r' →
    r'.stop = some stop → ∃ at_, moment s e = some at_ ∧
      (s.phase e.process ≠ .idle → isStale r.run (staleBefore at_) = true →
        stop.status = .error) ∧
      (stop.status = .completed → openedBy id past ≠ some e.process →
        ∃ beat, r.run.heartbeatUs = some beat ∧ staleBefore at_ ≤ beat)

/-- What the callers see to: `current_run` comes to no stale run, and nobody completes a stale run
of another process. -/
structure Attentive (past : List Event) (s : Shared) (e : Event) : Prop where
  current : ∀ id last kind at_, s.phase e.process = .idling id last kind at_ →
    e ≠ .left e.process → ¬ StaleAt s.rows id at_
  closed : ∀ id at_ stopReason, s.phase e.process = .idle →
    e = .ran e.process (.stop id at_ .completed stopReason) →
    openedBy id past ≠ some e.process → ¬ StaleAt s.rows id at_

/-! ## Heartbeats -/

theorem heartbeat_onRun {id : Nat} {r : RunRow} (h : r.run.heartbeatUs ≠ none) (st : Statement) :
    (st.onRun id r).run.heartbeatUs ≠ none := by
  cases st with
  | select => exact h
  | insert id' kind at_ => exact h
  | beat target at_ =>
      rw [Statement.onRun, Statement.beaten]
      split
      · split
        · exact Option.some_ne_none at_
        · exact h
      · exact h
  | stop target at_ status stopReason =>
      rw [Statement.onRun, Statement.stopped]
      split
      · split <;> exact h
      · exact h
  | count target n =>
      rw [Statement.onRun]
      split <;> exact h

/-- Every run was opened with a heartbeat. -/
theorem heartbeat_ne_none {s : Shared} (h : lives.Reachable s) {id : Nat} {r : RunRow}
    (found : rowOf id s.rows = some r) : r.run.heartbeatUs ≠ none := by
  refine h.invariant (P := fun s => ∀ id r, rowOf id s.rows = some r → r.run.heartbeatUs ≠ none)
    ?_ ?_ id r found
  · intro s start id r found
    rw [show s = _ from start] at found
    cases found
  · intro s e t ih st id r found
    rw [step_rows st] at found
    cases before : rowOf id s.rows with
    | some r₀ =>
        obtain rfl := Option.some.inj ((Statement.rowOf_apply before _).symm.trans found)
        exact heartbeat_onRun (ih id r₀ before) _
    | none =>
        obtain ⟨kind, at_, opens, -⟩ := Statement.rowOf_apply_none before found
        rw [opens, Statement.apply, rowOf_append, before, Option.none_or, rowOf,
          List.find?_singleton] at found
        split at found
        · obtain rfl := Option.some.inj found
          exact Option.some_ne_none at_
        · cases found

/-- A run that is `running` and not stale had a heartbeat within the window. -/
theorem beat_of_fresh {s : Shared} (h : lives.Reachable s) {id : Nat} {r : RunRow} {at_ : Int}
    (found : rowOf id s.rows = some r) (running : r.stop = none) (fresh : ¬ StaleAt s.rows id at_) :
    ∃ beat, r.run.heartbeatUs = some beat ∧ staleBefore at_ ≤ beat := by
  obtain ⟨beat, is⟩ := Option.ne_none_iff_exists'.1 (heartbeat_ne_none h found)
  refine ⟨beat, is, ?_⟩
  by_contra late
  refine fresh ⟨r, found, ?_⟩
  have live : r.run.status = .running := by
    by_contra finished
    rw [RunRow.stop, if_neg finished] at running
    cases running
  rw [isStale, Engagement.lastSeen, is, live]
  exact decide_eq_true (Int.lt_of_not_ge late)

/-- A stale run has no such heartbeat. -/
theorem beat_lt_of_stale {r : Run} {beat before : Int} (stale : isStale r before = true)
    (is : r.heartbeatUs = some beat) : beat < before := by
  rw [isStale, Engagement.lastSeen, is] at stale
  exact of_decide_eq_true (Bool.and_eq_true_iff.1 stale).2

theorem running_of_stale {r : RunRow} {before : Int} (stale : isStale r.run before = true) :
    r.stop = none :=
  if_pos (beq_iff_eq.1 (Bool.and_eq_true_iff.1 stale).1)

/-! ## One step -/

/-- What a stop leaves of a run that is `running`. -/
theorem stop_of_stopped {s t : Shared} {e : Event} (st : Step s e t) {id : Nat} {r : RunRow}
    (found : rowOf id s.rows = some r) (running : r.stop = none) :
    ∃ r', rowOf id t.rows = some r' ∧ r'.stop = e.statement.stops id := by
  refine ⟨e.statement.onRun id r, ?_, ?_⟩
  · rw [step_rows st]
    exact Statement.rowOf_apply found e.statement
  · rw [Statement.stop_onRun_eq, running, Option.none_or]

theorem stops_completed (id : Nat) (at_ : Int) (stopReason : Option String) :
    Statement.stops id (.stop id at_ .completed stopReason) =
      some ⟨.completed, some at_, stopReason⟩ :=
  if_pos ⟨rfl, RunStatus.noConfusion⟩

theorem of_stops {id target : Nat} {at_ : Int} {status : RunStatus} {stopReason : Option String}
    {stop : Stop} (h : some stop = Statement.stops id (.stop target at_ status stopReason)) :
    id = target ∧ stop.status = status := by
  rw [Statement.stops] at h
  split at h
  next is =>
    obtain rfl := Option.some.inj h
    exact ⟨is.1, rfl⟩
  next => cases h

/-- In an idle close the process does what it had left to do. -/
theorem idling_step {s t : Shared} {e : Event} (st : Step s e t) {id : Nat} {last at_ : Int}
    {kind : RunKind} (phase : s.phase e.process = .idling id last kind at_)
    (stays : e ≠ .left e.process) :
    e = .ran e.process (.stop id last .completed (some "idle")) := by
  cases st with
  | idleClose next =>
      cases next.symm.trans phase
      rfl
  | leave p => exact absurd rfl stays
  | openRun kind' at' idle fresh => cases idle.symm.trans phase
  | heartbeat id' at' idle => cases idle.symm.trans phase
  | closeRun id' at' status reason idle => cases idle.symm.trans phase
  | abortRun id' at' reason idle => cases idle.symm.trans phase
  | countDrop id' positive idle => cases idle.symm.trans phase
  | reapSelect at' window idle => cases idle.symm.trans phase
  | reapStop next => cases next.symm.trans phase
  | currentLive idle found live => cases idle.symm.trans phase
  | currentIdle idle found finished => cases idle.symm.trans phase
  | currentNone at' idle found => cases idle.symm.trans phase
  | currentOpen next fresh => cases next.symm.trans phase
  | handOut next => cases next.symm.trans phase

/-- Both ways a stale run gets completed show in the step. -/
theorem attentive_of_resolves {past : List Event} {s t : Shared} {e : Event}
    (st : Step s e t) (resolves : Resolves past s e t) : Attentive past s e := by
  refine ⟨?_, ?_⟩
  · rintro id last kind at_ phase stays ⟨r, found, stale⟩
    have is := idling_step st phase stays
    have running := running_of_stale stale
    obtain ⟨r', found', stop⟩ := stop_of_stopped st found running
    rw [is, Event.statement, stops_completed] at stop
    obtain ⟨m, when_, resolved, -⟩ := resolves id r r' _ found running found' stop
    have same : m = at_ := by
      rw [is, moment, phase] at when_
      exact (Option.some.inj when_).symm
    have busy : s.phase e.process ≠ .idle := by
      rw [phase]
      exact nofun
    cases resolved busy (same ▸ stale)
  · rintro id at_ stopReason idle is stranger ⟨r, found, stale⟩
    have running := running_of_stale stale
    obtain ⟨r', found', stop⟩ := stop_of_stopped st found running
    rw [is, Event.statement, stops_completed] at stop
    obtain ⟨m, when_, -, beaten⟩ := resolves id r r' _ found running found' stop
    have same : m = at_ := by
      rw [is, moment, idle] at when_
      exact (Option.some.inj when_).symm
    obtain ⟨beat, held, late⟩ := beaten rfl stranger
    exact absurd (same ▸ beat_lt_of_stale stale held) (Int.not_lt.2 late)

/-- A step of callers that see to it resolves every run as it should. -/
theorem resolves_of_attentive {past : List Event} {s t : Shared} {e : Event}
    (reached : lives.Reachable s) (st : Step s e t) (attentive : Attentive past s e) :
    Resolves past s e t := by
  intro id r r' stop found running found' stopped
  obtain ⟨r'', found'', stops⟩ := stop_of_stopped st found running
  obtain rfl := Option.some.inj (found''.symm.trans found')
  rw [stopped] at stops
  have beats (m : Int) (fresh : ¬ StaleAt s.rows id m) := beat_of_fresh reached found running fresh
  cases st with
  | closeRun id' at_ status reason idle =>
      obtain ⟨rfl, status_⟩ := of_stops stops
      refine ⟨at_, by rw [moment, idle]; rfl, fun busy => absurd idle busy, ?_⟩
      intro completed stranger
      obtain rfl : status = .completed := status_.symm.trans completed
      exact beats at_ (attentive.closed id at_ reason idle rfl stranger)
  | abortRun id' at_ reason idle =>
      obtain ⟨rfl, status_⟩ := of_stops stops
      refine ⟨at_, by rw [moment, idle]; rfl, fun busy => absurd idle busy, ?_⟩
      intro completed
      cases status_.symm.trans completed
  | @reapStop p id' at_ ids next =>
      obtain ⟨rfl, status_⟩ := of_stops stops
      refine ⟨at_, by rw [moment, next]; rfl, fun _ _ => status_, ?_⟩
      intro completed
      cases status_.symm.trans completed
  | @idleClose p id' last at_ kind next =>
      obtain ⟨rfl, status_⟩ := of_stops stops
      have fresh := attentive.current id last kind at_ next nofun
      refine ⟨at_, by rw [moment, next]; rfl, ?_, fun _ _ => beats at_ fresh⟩
      intro _ stale
      exact absurd ⟨r, found, stale⟩ fresh
  | openRun kind at_ idle fresh => cases stops
  | heartbeat id' at_ idle => cases stops
  | countDrop id' positive idle => cases stops
  | reapSelect at_ window idle => cases stops
  | currentLive idle found live => cases stops
  | currentIdle idle found finished => cases stops
  | currentNone at_ idle found => cases stops
  | currentOpen next fresh => cases stops
  | handOut next => cases stops
  | leave p => cases stops

/-- The interleavings in which every run is resolved as it should are exactly those in which
`current_run` comes to no stale run and nobody completes a stale run of another process. -/
theorem stale_runs_end_in_error_iff (past : List Event) (s : Shared) :
    lives.Along Resolves past s ↔ lives.Along (fun past s e _ => Attentive past s e) past s := by
  constructor
  · intro run
    exact run.imp fun _ _ _ _ _ st => attentive_of_resolves st
  · intro run
    exact run.imp fun _ _ _ _ history st => resolves_of_attentive history.reachable st

/-! ## A browser that died forty minutes ago -/

def fortyMinutes : Int := 40 * 60 * 1000000

/-- The first process opens a run and dies, and the second asks for the current one. -/
def abandoned : Shared := (newDatabase.ran 0 (.insert 0 .browse 0) .idle).at_ 0 .idle

def askedFor : Shared := abandoned.ran 1 .select (.idling 0 0 .browse fortyMinutes)

def completedThen : Shared :=
  askedFor.ran 1 (.stop 0 0 .completed (some "idle")) (.opening .browse fortyMinutes)

def askedLate : List Event := [.ran 1 .select, .left 0, .ran 0 (.insert 0 .browse 0)]

theorem askedLate_history : lives.History askedLate askedFor := by
  have start : lives.History [] newDatabase := .start rfl
  have asks : Step abandoned (.ran 1 .select) askedFor :=
    .currentIdle rfl (show abandoned.runs.liveRun .browse = some browsing from rfl)
      (show ¬ fortyMinutes - Engagement.lastSeen browsing ≤ idleCloseUs by decide)
  exact ((start.step (.openRun .browse 0 rfl rfl)).step (.leave 0)).step asks

/-- The run is stale when `current_run` comes to it, and it is completed. -/
theorem stale_run_completed :
    lives.History askedLate askedFor ∧
      Step askedFor (.ran 1 (.stop 0 0 .completed (some "idle"))) completedThen ∧
      StaleAt askedFor.rows 0 fortyMinutes ∧
      (rowOf 0 completedThen.rows).map RunRow.stop =
        some (some ⟨.completed, some 0, some "idle"⟩) ∧
      ¬ Resolves askedLate askedFor (.ran 1 (.stop 0 0 .completed (some "idle")))
        completedThen := by
  have next : askedFor.phase 1 = .idling 0 0 .browse fortyMinutes := rfl
  refine ⟨askedLate_history, .idleClose next, ⟨⟨browsing, 0⟩, rfl, by decide⟩, by decide, ?_⟩
  intro resolves
  obtain ⟨at_, when_, resolved, -⟩ := resolves 0 ⟨browsing, 0⟩ _ _ rfl rfl rfl rfl
  obtain rfl : fortyMinutes = at_ := Option.some.inj when_
  have busy : askedFor.phase 1 ≠ .idle := by
    rw [next]
    exact nofun
  cases resolved busy (by decide)

end Hx.Store
