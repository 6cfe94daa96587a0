import Hx.Library.Transition
import Hx.Store.Records
import Mathlib.Logic.Function.Basic

/-!
# The life of a run

Any number of processes open, keep alive, close, abort and reap the runs of one database, and count
drops on them. Each statement is atomic and everything between two of them can interleave: the
`SELECT` of `current_run` or of `reap_stale` is one step and what follows from it another.
-/

namespace Hx.Store

open Hx.Library

/-! ## Rows and statements -/

/-- A row of `run`, with its drops. -/
structure RunRow where
  run : Run
  droppedTotal : Nat
  deriving DecidableEq

/-- How a run ended. -/
structure Stop where
  status : RunStatus
  endedUs : Option Int
  stopReason : Option String
  deriving DecidableEq

/-- What is on file of a run that is no longer `running`. -/
def RunRow.stop (r : RunRow) : Option Stop :=
  if r.run.status = .running then none
  else some ⟨r.run.status, r.run.endedUs, r.run.stopReason⟩

/-- The statements of the operations. `stop` is the one of `close_run`, of `abort_run` and of
`reap_stale`. -/
inductive Statement where
  | select
  | insert (id : Nat) (kind : RunKind) (at_ : Int)
  | beat (id : Nat) (at_ : Int)
  | stop (id : Nat) (at_ : Int) (status : RunStatus) (stopReason : Option String)
  | count (id : Nat) (n : Nat)

namespace Statement

def beaten (at_ : Int) (r : RunRow) : RunRow :=
  if r.run.status = .running then { r with run := { r.run with heartbeatUs := some at_ } } else r

def stopped (at_ : Int) (status : RunStatus) (stopReason : Option String) (r : RunRow) : RunRow :=
  if r.run.status = .running then
    { r with run := { r.run with status, endedUs := some at_, stopReason } }
  else r

def onRow (id : Nat) (change : RunRow → RunRow) (rows : List RunRow) : List RunRow :=
  rows.map fun r => if r.run.id = id then change r else r

def apply : Statement → List RunRow → List RunRow
  | .select, rows => rows
  | .insert id kind at_, rows =>
      rows ++ [⟨{ id, kind, startedUs := at_, heartbeatUs := some at_ }, 0⟩]
  | .beat id at_, rows => onRow id (beaten at_) rows
  | .stop id at_ status stopReason, rows => onRow id (stopped at_ status stopReason) rows
  | .count id n, rows =>
      onRow id (fun r => { r with droppedTotal := r.droppedTotal + n }) rows

end Statement

/-- The row of an id. -/
def rowOf (id : Nat) (rows : List RunRow) : Option RunRow := rows.find? fun r => r.run.id == id

/-! ## Processes -/

/-- Where a process stands inside an operation. -/
inductive Phase where
  | idle
  | reaping (at_ : Int) (ids : List Nat)
  | idling (id : Nat) (last : Int) (kind : RunKind) (at_ : Int)
  | opening (kind : RunKind) (at_ : Int)
  | returning (id : Nat)

/-- One statement of a process, the return of `current_run`, or the end of a process. -/
inductive Event where
  | ran (p : Nat) (statement : Statement)
  | handedOut (p : Nat) (id : Nat)
  | left (p : Nat)

def Event.process : Event → Nat
  | .ran p _ | .handedOut p _ | .left p => p

structure Shared where
  rows : List RunRow
  phase : Nat → Phase

namespace Shared

def runs (s : Shared) : Engagement := { runs := s.rows.map RunRow.run }

/-- The rows after a statement, and where its process stands then. -/
def ran (s : Shared) (p : Nat) (statement : Statement) (phase : Phase) : Shared :=
  ⟨statement.apply s.rows, Function.update s.phase p phase⟩

def at_ (s : Shared) (p : Nat) (phase : Phase) : Shared :=
  { s with phase := Function.update s.phase p phase }

end Shared

/-- `is_stale`. -/
def isStale (r : Run) (before : Int) : Bool :=
  r.status == .running && decide (Engagement.lastSeen r < before)

/-- The runs `reap_stale` selects. -/
def staleIds (rows : List RunRow) (before : Int) : List Nat :=
  ((rows.map RunRow.run).filter fun r => isStale r before).map Run.id

/-- The reason of a reaped run. -/
def wentStale : String :=
  "heartbeat went stale: the harness stopped without closing this run, so its coverage is incomplete"

inductive Step : Shared → Event → Shared → Prop where
  | openRun {s : Shared} {p id : Nat} (kind : RunKind) (at_ : Int) (idle : s.phase p = .idle)
      (fresh : rowOf id s.rows = none) :
      Step s (.ran p (.insert id kind at_)) (s.ran p (.insert id kind at_) .idle)
  | heartbeat {s : Shared} {p : Nat} (id : Nat) (at_ : Int) (idle : s.phase p = .idle) :
      Step s (.ran p (.beat id at_)) (s.ran p (.beat id at_) .idle)
  | closeRun {s : Shared} {p : Nat} (id : Nat) (at_ : Int) (status : RunStatus)
      (stopReason : Option String) (idle : s.phase p = .idle) :
      Step s (.ran p (.stop id at_ status stopReason))
        (s.ran p (.stop id at_ status stopReason) .idle)
  | abortRun {s : Shared} {p : Nat} (id : Nat) (at_ : Int) (stopReason : String)
      (idle : s.phase p = .idle) :
      Step s (.ran p (.stop id at_ .aborted (some stopReason)))
        (s.ran p (.stop id at_ .aborted (some stopReason)) .idle)
  | countDrop {s : Shared} {p : Nat} (id : Nat) {n : Nat} (positive : 1 ≤ n)
      (idle : s.phase p = .idle) :
      Step s (.ran p (.count id n)) (s.ran p (.count id n) .idle)
  | reapSelect {s : Shared} {p : Nat} (at_ window : Int) (idle : s.phase p = .idle) :
      Step s (.ran p .select)
        (s.ran p .select (.reaping at_ (staleIds s.rows (at_ - window))))
  | reapStop {s : Shared} {p id : Nat} {at_ : Int} {ids : List Nat}
      (next : s.phase p = .reaping at_ (id :: ids)) :
      Step s (.ran p (.stop id at_ .error (some wentStale)))
        (s.ran p (.stop id at_ .error (some wentStale)) (.reaping at_ ids))
  | currentLive {s : Shared} {p : Nat} {kind : RunKind} {at_ : Int} {r : Run}
      (idle : s.phase p = .idle) (found : s.runs.liveRun kind = some r)
      (live : at_ - Engagement.lastSeen r ≤ idleCloseUs) :
      Step s (.ran p .select) (s.ran p .select (.returning r.id))
  | currentIdle {s : Shared} {p : Nat} {kind : RunKind} {at_ : Int} {r : Run}
      (idle : s.phase p = .idle) (found : s.runs.liveRun kind = some r)
      (finished : ¬ at_ - Engagement.lastSeen r ≤ idleCloseUs) :
      Step s (.ran p .select)
        (s.ran p .select (.idling r.id (Engagement.lastSeen r) kind at_))
  | currentNone {s : Shared} {p : Nat} {kind : RunKind} (at_ : Int)
      (idle : s.phase p = .idle) (found : s.runs.liveRun kind = none) :
      Step s (.ran p .select) (s.ran p .select (.opening kind at_))
  | idleClose {s : Shared} {p id : Nat} {last at_ : Int} {kind : RunKind}
      (next : s.phase p = .idling id last kind at_) :
      Step s (.ran p (.stop id last .completed (some "idle")))
        (s.ran p (.stop id last .completed (some "idle")) (.opening kind at_))
  | currentOpen {s : Shared} {p id : Nat} {kind : RunKind} {at_ : Int}
      (next : s.phase p = .opening kind at_) (fresh : rowOf id s.rows = none) :
      Step s (.ran p (.insert id kind at_)) (s.ran p (.insert id kind at_) (.returning id))
  | handOut {s : Shared} {p id : Nat} (next : s.phase p = .returning id) :
      Step s (.handedOut p id) (s.at_ p .idle)
  | leave {s : Shared} (p : Nat) : Step s (.left p) (s.at_ p .idle)

/-- All interleavings of the processes over a new database. -/
def lives : System Shared Event where
  init s := s = ⟨[], fun _ => .idle⟩
  step := Step

/-! ## What a statement does to a row -/

theorem rowOf_map {id : Nat} {rows : List RunRow} {f : RunRow → RunRow}
    (same : ∀ r, (f r).run.id = r.run.id) : rowOf id (rows.map f) = (rowOf id rows).map f := by
  induction rows with
  | nil => rfl
  | cons r rows ih =>
      unfold rowOf at ih ⊢
      rw [List.map_cons, List.find?_cons, List.find?_cons, same]
      cases r.run.id == id with
      | true => rfl
      | false => exact ih

theorem rowOf_append {id : Nat} {rows more : List RunRow} :
    rowOf id (rows ++ more) = (rowOf id rows).or (rowOf id more) :=
  List.find?_append

theorem id_of_rowOf {id : Nat} {rows : List RunRow} {r : RunRow} (h : rowOf id rows = some r) :
    r.run.id = id :=
  beq_iff_eq.mp (List.find?_some (p := fun r : RunRow => r.run.id == id) h)

namespace Statement

theorem id_beaten (at_ : Int) (r : RunRow) : (beaten at_ r).run.id = r.run.id := by
  unfold beaten
  split <;> rfl

theorem id_stopped (at_ : Int) (status : RunStatus) (stopReason : Option String) (r : RunRow) :
    (stopped at_ status stopReason r).run.id = r.run.id := by
  unfold stopped
  split <;> rfl

theorem rowOf_onRow {target id : Nat} {rows : List RunRow} {change : RunRow → RunRow}
    (same : ∀ r, (change r).run.id = r.run.id) :
    rowOf id (onRow target change rows) =
      if id = target then (rowOf id rows).map change else rowOf id rows := by
  have hid (r : RunRow) : (if r.run.id = target then change r else r).run.id = r.run.id := by
    split
    · exact same r
    · rfl
  rw [onRow, rowOf_map hid]
  cases h : rowOf id rows with
  | none => simp
  | some r =>
      rw [Option.map_some, id_of_rowOf h]
      split <;> rfl

/-- What a statement does to the row of one id that is there. -/
def onRun (id : Nat) : Statement → RunRow → RunRow
  | .select, r | .insert .., r => r
  | .beat target at_, r => if id = target then beaten at_ r else r
  | .stop target at_ status stopReason, r =>
      if id = target then stopped at_ status stopReason r else r
  | .count target n, r =>
      if id = target then { r with droppedTotal := r.droppedTotal + n } else r

/-- A row that is there stays there, and only its own statement of the moment changes it. -/
theorem rowOf_apply {id : Nat} {rows : List RunRow} {r : RunRow} (h : rowOf id rows = some r)
    (st : Statement) : rowOf id (st.apply rows) = some (st.onRun id r) := by
  cases st with
  | select => exact h
  | insert id' kind at_ =>
      rw [apply, rowOf_append, h]
      rfl
  | beat target at_ =>
      rw [apply, rowOf_onRow (id_beaten at_), h, onRun]
      split <;> rfl
  | stop target at_ status stopReason =>
      rw [apply, rowOf_onRow (id_stopped at_ status stopReason), h, onRun]
      split <;> rfl
  | count target n =>
      have := @rowOf_onRow target id rows
        (fun r => { r with droppedTotal := r.droppedTotal + n }) fun r => rfl
      rw [apply, this, h, onRun]
      split <;> rfl

/-- A stop is written once. -/
theorem stop_onRun {id : Nat} {r : RunRow} {stop : Stop} (h : r.stop = some stop)
    (st : Statement) : (st.onRun id r).stop = some stop := by
  have finished : r.run.status ≠ .running := by
    intro running
    rw [RunRow.stop, if_pos running] at h
    cases h
  cases st with
  | select => exact h
  | insert id' kind at_ => exact h
  | beat target at_ =>
      rw [onRun, beaten, if_neg finished]
      split <;> exact h
  | stop target at_ status stopReason =>
      rw [onRun, stopped, if_neg finished]
      split <;> exact h
  | count target n =>
      rw [onRun]
      split <;> exact h

theorem dropped_onRun (id : Nat) (r : RunRow) (st : Statement) :
    r.droppedTotal ≤ (st.onRun id r).droppedTotal := by
  cases st with
  | select => exact Nat.le_refl _
  | insert id' kind at_ => exact Nat.le_refl _
  | beat target at_ =>
      rw [onRun, beaten]
      split
      · split <;> exact Nat.le_refl _
      · exact Nat.le_refl _
  | stop target at_ status stopReason =>
      rw [onRun, stopped]
      split
      · split <;> exact Nat.le_refl _
      · exact Nat.le_refl _
  | count target n =>
      rw [onRun]
      split
      · exact Nat.le_add_right _ _
      · exact Nat.le_refl _

end Statement

/-! ## Runs of the system -/

def Event.statement : Event → Statement
  | .ran _ statement => statement
  | .handedOut .. | .left _ => .select

/-- The stop a statement brings to a run that is `running`. -/
def Statement.stops (id : Nat) : Statement → Option Stop
  | .stop target at_ status stopReason =>
      if id = target ∧ status ≠ .running then some ⟨status, some at_, stopReason⟩ else none
  | _ => none

/-- The first stop of a run since it was opened, over a history with the newest event first. -/
def firstStop (id : Nat) : List Event → Option Stop
  | [] => none
  | e :: past =>
      match e.statement with
      | .insert id' _ _ => if id' = id then none else firstStop id past
      | statement => (firstStop id past).or (statement.stops id)

theorem step_rows {s t : Shared} {e : Event} (h : Step s e t) :
    t.rows = e.statement.apply s.rows := by
  cases h <;> rfl

theorem step_fresh {s t : Shared} {e : Event} (h : Step s e t) {id : Nat} {kind : RunKind}
    {at_ : Int} (hs : e.statement = .insert id kind at_) : rowOf id s.rows = none := by
  cases h <;> cases hs <;> assumption

theorem history_rows {s t : Shared} {g : List Event} (h : (lives.startingAt s).History g t)
    {id : Nat} {r : RunRow} (hr : rowOf id s.rows = some r) :
    ∃ r', rowOf id t.rows = some r' ∧ r.droppedTotal ≤ r'.droppedTotal ∧
      ∀ stop, r.stop = some stop → r'.stop = some stop := by
  induction h with
  | start hs =>
      cases hs
      exact ⟨r, hr, Nat.le_refl _, fun _ h => h⟩
  | @step g s' t e _ st ih =>
      obtain ⟨r', hr', hdropped, hstop⟩ := ih
      refine ⟨e.statement.onRun id r', ?_, ?_, fun stop h => ?_⟩
      · rw [step_rows st]
        exact Statement.rowOf_apply hr' e.statement
      · exact Nat.le_trans hdropped (Statement.dropped_onRun id r' e.statement)
      · exact Statement.stop_onRun (hstop stop h) e.statement

namespace Statement

/-- A statement that opens no run brings its stop to a run that has none. -/
theorem stop_onRun_eq (id : Nat) (r : RunRow) (st : Statement) :
    (st.onRun id r).stop = r.stop.or (st.stops id) := by
  cases hr : r.stop with
  | some stop => exact stop_onRun hr st
  | none =>
      have running : r.run.status = .running := by
        by_contra finished
        rw [RunRow.stop, if_neg finished] at hr
        cases hr
      cases st with
      | select => exact hr
      | insert id' kind at_ => exact hr
      | beat target at_ =>
          rw [onRun, beaten, if_pos running]
          split <;> exact hr
      | stop target at_ status stopReason =>
          rw [onRun, stopped, if_pos running, stops]
          by_cases hid : id = target
          · rw [if_pos hid]
            by_cases hstatus : status = .running
            · simp [RunRow.stop, hstatus]
            · simp [RunRow.stop, hstatus, hid]
          · rw [if_neg hid, hr, if_neg fun h => hid h.1]
            rfl
      | count target n =>
          rw [onRun]
          split <;> exact hr

/-- A row that was not there was opened by the statement. -/
theorem rowOf_apply_none {id : Nat} {rows : List RunRow} {r : RunRow} {st : Statement}
    (h : rowOf id rows = none) (h' : rowOf id (st.apply rows) = some r) :
    ∃ kind at_, st = .insert id kind at_ ∧ r.run.status = .running := by
  cases st with
  | select => exact absurd (h.symm.trans h') (by simp)
  | insert id' kind at_ =>
      rw [apply, rowOf_append, h, Option.none_or, rowOf, List.find?_singleton] at h'
      split at h'
      next hid =>
        cases h'
        cases beq_iff_eq.mp hid
        exact ⟨kind, at_, rfl, rfl⟩
      next => cases h'
  | beat target at_ =>
      rw [apply, rowOf_onRow (id_beaten at_), h] at h'
      simp at h'
  | stop target at_ status stopReason =>
      rw [apply, rowOf_onRow (id_stopped at_ status stopReason), h] at h'
      simp at h'
  | count target n =>
      have := @rowOf_onRow target id rows
        (fun r => { r with droppedTotal := r.droppedTotal + n }) fun r => rfl
      rw [apply, this, h] at h'
      simp at h'

end Statement

/-- The stop on file is the first one since the run was opened. -/
theorem first_stop {s : Shared} {past : List Event} (h : lives.History past s) :
    ∀ id r, rowOf id s.rows = some r → r.stop = firstStop id past := by
  induction h with
  | start hs =>
      intro id r hr
      rw [hs] at hr
      cases hr
  | @step past s t e _ st ih =>
      intro id r' hr'
      rw [step_rows st] at hr'
      cases hr : rowOf id s.rows with
      | none =>
          obtain ⟨kind, at_, hs, running⟩ := Statement.rowOf_apply_none hr hr'
          rw [firstStop, hs]
          simp [RunRow.stop, running]
      | some r =>
          rw [Statement.rowOf_apply hr e.statement] at hr'
          cases hr'
          rw [Statement.stop_onRun_eq, ih id r hr, firstStop]
          split
          next id' kind at_ hs =>
            have hne : id' ≠ id := by
              rintro rfl
              rw [step_fresh st hs] at hr
              cases hr
            rw [if_neg hne, hs]
            simp [Statement.stops]
          next => rfl

/-! ## The current run -/

def ids (rows : List RunRow) : List Nat := rows.map fun r => r.run.id

theorem ids_onRow {target : Nat} {rows : List RunRow} {change : RunRow → RunRow}
    (same : ∀ r, (change r).run.id = r.run.id) :
    ids (Statement.onRow target change rows) = ids rows := by
  rw [ids, Statement.onRow, List.map_map]
  refine List.map_congr_left fun r _ => ?_
  rw [Function.comp_apply]
  split
  · exact same r
  · rfl

theorem rowOf_eq_none {id : Nat} {rows : List RunRow} : rowOf id rows = none ↔ id ∉ ids rows := by
  simp [rowOf, ids]

/-- No two runs share an id. -/
theorem ids_nodup {s : Shared} (h : lives.Reachable s) : (ids s.rows).Nodup := by
  refine h.invariant (P := fun s => (ids s.rows).Nodup) (fun s hs => ?_) fun s e t ih st => ?_
  · rw [hs]
    exact List.nodup_nil
  · have fresh {id : Nat} {kind : RunKind} {at_ : Int} := @step_fresh s t e st id kind at_
    rw [step_rows st]
    cases hs : e.statement with
    | select => exact ih
    | insert id kind at_ =>
        have hid := rowOf_eq_none.mp (fresh hs)
        rw [Statement.apply, ids, List.map_append, List.nodup_append]
        refine ⟨ih, by simp, fun a ha b hb hab => hid ?_⟩
        cases List.mem_singleton.mp hb
        rw [hab] at ha
        exact ha
    | beat target at_ => exact (ids_onRow (Statement.id_beaten at_)).symm ▸ ih
    | stop target at_ status stopReason =>
        exact (ids_onRow (Statement.id_stopped at_ status stopReason)).symm ▸ ih
    | count target n =>
        have := @ids_onRow target s.rows
          (fun r => { r with droppedTotal := r.droppedTotal + n }) fun r => rfl
        rw [Statement.apply, this]
        exact ih

theorem rowOf_of_mem {rows : List RunRow} {r : RunRow} (distinct : (ids rows).Nodup)
    (h : r ∈ rows) : rowOf r.run.id rows = some r := by
  induction rows with
  | nil => cases h
  | cons first rest ih =>
      rw [ids, List.map_cons, List.nodup_cons] at distinct
      rw [rowOf, List.find?_cons]
      cases h with
      | head => simp
      | tail _ h =>
          have hne : (first.run.id == r.run.id) = false := by
            rw [beq_eq_false_iff_ne]
            intro same
            exact distinct.1 (same ▸ List.mem_map_of_mem h)
          rw [hne]
          exact ih distinct.2 h

/-- A run that is on file and `running`. -/
def Running (id : Nat) (rows : List RunRow) : Prop := ∃ r, rowOf id rows = some r ∧ r.stop = none

theorem running_of_liveRun {s : Shared} {kind : RunKind} {r : Run} (distinct : (ids s.rows).Nodup)
    (h : s.runs.liveRun kind = some r) : Running r.id s.rows := by
  obtain ⟨mem, _, running⟩ := mem_of_liveRun h
  obtain ⟨row, hrow, rfl⟩ := List.mem_map.mp mem
  exact ⟨row, rowOf_of_mem distinct hrow, if_pos running⟩

theorem running_of_insert {id : Nat} {rows : List RunRow} (fresh : rowOf id rows = none)
    (kind : RunKind) (at_ : Int) : Running id (Statement.apply (.insert id kind at_) rows) := by
  refine ⟨⟨{ id, kind, startedUs := at_, heartbeatUs := some at_ }, 0⟩, ?_, rfl⟩
  rw [Statement.apply, rowOf_append, fresh]
  simp [rowOf]

/-- A run that a process is about to hand out was `running` after the process's last statement. -/
def ReadRunning (past : List Event) (p id : Nat) : Prop :=
  ∃ since before s, past = since ++ before ∧ lives.History before s ∧ Running id s.rows ∧
    ∀ e ∈ since, e.process ≠ p

theorem ReadRunning.later {past : List Event} {p id : Nat} {e : Event}
    (h : ReadRunning past p id) (other : e.process ≠ p) : ReadRunning (e :: past) p id := by
  obtain ⟨since, before, s, rfl, history, running, quiet⟩ := h
  refine ⟨e :: since, before, s, rfl, history, running, fun e' he' => ?_⟩
  cases he' with
  | head => exact other
  | tail _ he' => exact quiet e' he'

theorem readRunning_now {past : List Event} {p id : Nat} {s : Shared}
    (history : lives.History past s) (running : Running id s.rows) : ReadRunning past p id :=
  ⟨[], past, s, rfl, history, running, fun _ h => by cases h⟩

/-- What a step leaves of a process that it brings to its return. -/
theorem step_returning {s t : Shared} {e : Event} (distinct : (ids s.rows).Nodup)
    (h : Step s e t) {p id : Nat} (phase : t.phase p = .returning id) :
    (e.process ≠ p ∧ s.phase p = .returning id) ∨ Running id t.rows := by
  have moved {p' : Nat} {phase' : Phase} (hp : e.process = p')
      (ht : t.phase = Function.update s.phase p' phase') :
      (e.process ≠ p ∧ s.phase p = .returning id) ∨ phase' = .returning id := by
    rw [ht, Function.update_apply] at phase
    split at phase
    · exact .inr phase
    next hne => exact .inl ⟨fun same => hne (same.symm.trans hp), phase⟩
  cases h with
  | currentLive idle found live =>
      obtain moved | same := moved rfl rfl
      · exact .inl moved
      · cases same
        exact .inr (running_of_liveRun distinct found)
  | currentOpen next fresh =>
      obtain moved | same := moved rfl rfl
      · exact .inl moved
      · cases same
        exact .inr (running_of_insert fresh _ _)
  | _ =>
      obtain moved | same := moved rfl rfl
      · exact .inl moved
      · cases same

/-- Before a process hands a run out, that run was `running` after its last statement. -/
theorem read_running {s : Shared} {past : List Event} (h : lives.History past s) :
    ∀ p id, s.phase p = .returning id → ReadRunning past p id := by
  induction h with
  | start hs =>
      intro p id phase
      rw [hs] at phase
      cases phase
  | @step past s t e history st ih =>
      intro p id phase
      obtain ⟨other, before⟩ | running := step_returning (ids_nodup history.reachable) st phase
      · exact (ih p id before).later other
      · exact readRunning_now (history.step st) running

theorem handed_out_running {t : Shared} {past : List Event} {p id : Nat}
    (h : lives.History (.handedOut p id :: past) t) : ReadRunning past p id := by
  obtain ⟨s, history, st⟩ := h.last
  cases st with
  | handOut next => exact read_running history p id next

/-- In every interleaving a stop stands as it was first written, drops are never taken back, and
the run a process is handed was `running` after the last statement of its call. -/
theorem stops_are_written_once {past : List Event} {s : Shared} (h : lives.History past s) :
    (∀ id r stop, rowOf id s.rows = some r → r.stop = some stop →
      firstStop id past = some stop ∧ ∀ more t, (lives.startingAt s).History more t →
        ∃ r', rowOf id t.rows = some r' ∧ r'.stop = some stop) ∧
    (∀ id r more t, rowOf id s.rows = some r → (lives.startingAt s).History more t →
      ∃ r', rowOf id t.rows = some r' ∧ r.droppedTotal ≤ r'.droppedTotal) ∧
    ∀ p id before, past = .handedOut p id :: before → ReadRunning before p id := by
  refine ⟨fun id r stop hr hstop => ⟨?_, fun more t hmore => ?_⟩, fun id r more t hr hmore => ?_,
    fun p id before hpast => ?_⟩
  · rw [← first_stop h id r hr, hstop]
  · obtain ⟨r', hr', _, kept⟩ := history_rows hmore hr
    exact ⟨r', hr', kept stop hstop⟩
  · obtain ⟨r', hr', hdropped, _⟩ := history_rows hmore hr
    exact ⟨r', hr', hdropped⟩
  · cases hpast
    exact handed_out_running h

/-! ## A run that is stopped while it is handed out -/

/-- The first process opens a run, the second is told that it is live, and a third aborts it before
the second returns. -/
def overtaken : List Event :=
  [.handedOut 1 0, .ran 2 (.stop 0 2 .aborted (some "halted")), .ran 1 .select,
    .ran 0 (.insert 0 .browse 0)]

def newDatabase : Shared := ⟨[], fun _ => .idle⟩

def browsing : Run := { id := 0, kind := .browse, startedUs := 0, heartbeatUs := some 0 }

/-- After each event of it. -/
def opened : Shared := newDatabase.ran 0 (.insert 0 .browse 0) .idle

def told : Shared := opened.ran 1 .select (.returning 0)

def abortedThen : Shared := told.ran 2 (.stop 0 2 .aborted (some "halted")) .idle

def handed : Shared := abortedThen.at_ 1 .idle

theorem overtaken_history : lives.History overtaken handed := by
  have toldStep : Step opened (.ran 1 .select) told :=
    .currentLive rfl (show opened.runs.liveRun .browse = some browsing from rfl)
      (show (1 : Int) - Engagement.lastSeen browsing ≤ idleCloseUs by decide)
  have start : lives.History [] newDatabase := .start rfl
  exact (((start.step (.openRun .browse 0 rfl rfl)).step toldStep).step
    (.abortRun 0 2 "halted" rfl)).step (.handOut rfl)

/-- The aborted run is what the second process gets. -/
theorem aborted_run_is_handed_out : lives.History overtaken handed ∧
    overtaken.head? = some (.handedOut 1 0) ∧
    (rowOf 0 abortedThen.rows).map RunRow.stop = some (some ⟨.aborted, some 2, some "halted"⟩) :=
  ⟨overtaken_history, rfl, by decide⟩

/-- The abort of that run, as it stands at the end. -/
theorem abort_stands : firstStop 0 overtaken = some ⟨.aborted, some 2, some "halted"⟩ := by
  obtain ⟨stops, _⟩ := stops_are_written_once overtaken_history
  obtain ⟨r, hr⟩ := Option.isSome_iff_exists.mp (show (rowOf 0 handed.rows).isSome = true by decide)
  have hstop : (rowOf 0 handed.rows).map RunRow.stop =
      some (some ⟨.aborted, some 2, some "halted"⟩) := by decide
  rw [hr, Option.map_some, Option.some.injEq] at hstop
  exact (stops 0 r _ hr hstop).1

end Hx.Store
