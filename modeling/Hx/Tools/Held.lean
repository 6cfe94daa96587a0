import Hx.Tools.Live
import Hx.Tools.InFlight

/-!
# Who can give a session back

The context owns the session that its inner stack holds, in every run. A call can release it
as long as its run is open or bound here: the two steps that end that, another process ending
the run while the context is bound elsewhere and a `run.start` after it ended, leave a session
no call releases.
-/

namespace Hx.Tools.Live

open Hx.Library

/-! ## What is claimed of a state -/

/-- The context holds what its inner stack holds, nothing else was launched and not torn
down, and a session went with the run that launched it. -/
structure Owned (b : Bracket) : Prop where
  held : ∀ s, b.context.session = some s ↔
    s ∈ b.inner ∧ ¬ b.TornDown s ∧ b.context.sessionRunId = some s.run
  one : ∀ s ∈ b.launched, ∀ t ∈ b.launched, ¬ b.TornDown s → ¬ b.TornDown t → s = t
  owner : ∀ x ∈ b.torn, x.2 = x.1.run

/-- A `run.finish` that is accepted and tears the session down, whatever it meets. -/
def Closes (b : Bracket) (s : Session) (why : Option String) (call : Call) : Prop :=
  call.name = "run.finish" ∧ ∀ halt w, (dispatch halt why call w b).1.accepted = true ∧
    (dispatch halt why call w b).2.TornDown s ∧
    (dispatch halt why call w b).2.context.session = none

def Releasable (b : Bracket) : Prop :=
  ∀ s, b.context.session = some s → ∃ why call, Closes b s why call

/-- No run is ended elsewhere that owns the session and is not bound here, and no run is
opened while the owner has ended. -/
def Safe (b : Bracket) : Event → Prop
  | .called halt why (.start kind) _ => refusal halt why (.start kind) ≠ none ∨
      openOfKind b.runs kind ≠ none ∨
      ∀ owner, b.context.sessionRunId = some owner → isRunning b.runs owner = true
  | .called _ _ (.finish ..) _ => True
  | .endedElsewhere id _ =>
      b.context.sessionRunId = some id → b.context.boundRunId = some id

/-! ## Runs that are open -/

section Open

variable {runs : List Run} {id owner : Nat} {kind : Kind} {status : Status}

theorem openRuns_append (runs : List Run) (id : Nat) (kind : Kind) :
    openRuns (runs ++ [⟨id, kind, .running, 0⟩]) = openRuns runs ++ [(id, kind)] := by
  rw [openRuns, List.filter_append, List.map_append]
  rfl

/-- A run that was closed is no longer among the open ones; the others stay in order. -/
theorem openRuns_closeRun (ends : status ≠ .running) (runs : List Run) (id : Nat) :
    openRuns (Tools.closeRun id status runs) = (openRuns runs).filter (·.1 ≠ id) := by
  induction runs with
  | nil => rfl
  | cons r runs ih =>
      have step : openRuns (Tools.closeRun id status (r :: runs)) =
          openRuns [if r.id = id ∧ r.status = .running then { r with status := status } else r] ++
            openRuns (Tools.closeRun id status runs) := by
        rw [openRuns, openRuns, openRuns, ← List.map_append, ← List.filter_append]
        rfl
      have split : openRuns (r :: runs) = openRuns [r] ++ openRuns runs := by
        rw [openRuns, openRuns, openRuns, ← List.map_append, ← List.filter_append]
        rfl
      rw [step, split, List.filter_append, ih]
      congr 1
      by_cases running : r.status = .running
      · by_cases same : r.id = id
        · simp [openRuns, running, same, ends]
        · simp [openRuns, running, same]
      · simp [openRuns, running]

theorem isRunning_iff : isRunning runs id = true ↔ ∃ kind, (id, kind) ∈ openRuns runs := by
  rw [isRunning, List.any_eq_true, openRuns]
  constructor
  · rintro ⟨r, mem, open_⟩
    obtain ⟨same, running⟩ := Bool.and_eq_true_iff.1 open_
    refine ⟨r.kind, List.mem_map.2 ⟨r, List.mem_filter.2 ⟨mem, ?_⟩, ?_⟩⟩
    · exact decide_eq_true (beq_iff_eq.1 running)
    · rw [beq_iff_eq.1 same]
  · rintro ⟨kind, mem⟩
    obtain ⟨r, among, same⟩ := List.mem_map.1 mem
    obtain ⟨inside, running⟩ := List.mem_filter.1 among
    obtain ⟨rfl, -⟩ := Prod.mk.inj same
    exact ⟨r, inside, by simpa using running⟩

theorem find?_filter_of {α : Type} {p q : α → Bool} {l : List α} {a : α}
    (found : l.find? p = some a) (kept : q a = true) : (l.filter q).find? p = some a := by
  induction l with
  | nil => contradiction
  | cons b l ih =>
      cases here : p b with
      | true =>
          rw [List.find?_cons_of_pos here] at found
          cases found
          rw [List.filter_cons_of_pos kept, List.find?_cons_of_pos here]
      | false =>
          rw [List.find?_cons_of_neg (by simp [here])] at found
          by_cases stays : q b = true
          · rw [List.filter_cons_of_pos stays, List.find?_cons_of_neg (by simp [here]), ih found]
          · rw [List.filter_cons_of_neg stays, ih found]

/-- The run is the one a `run.finish` of its kind closes. -/
def First (runs : List Run) (id : Nat) : Prop := ∃ kind, openOfKind runs kind = some id

theorem first_iff : First runs id ↔
    ∃ kind, (openRuns runs).find? (·.2 = kind) = some (id, kind) := by
  constructor
  · rintro ⟨kind, found⟩
    obtain ⟨⟨_, k⟩, search, rfl⟩ := Option.map_eq_some_iff.1 found
    have same : k = kind := by simpa using List.find?_some search
    exact ⟨kind, same ▸ search⟩
  · rintro ⟨kind, search⟩
    exact ⟨kind, by rw [openOfKind, search]; rfl⟩

theorem First.isRunning (first : First runs id) : isRunning runs id = true := by
  obtain ⟨kind, search⟩ := first_iff.1 first
  exact isRunning_iff.2 ⟨kind, List.mem_of_find?_eq_some search⟩

theorem First.openRun (first : First runs id) (next : Nat) (kind : Kind) :
    First (runs ++ [⟨next, kind, .running, 0⟩]) id := by
  obtain ⟨kind, search⟩ := first_iff.1 first
  refine first_iff.2 ⟨kind, ?_⟩
  rw [openRuns_append, List.find?_append, search]
  rfl

theorem first_openRun (free : openOfKind runs kind = none) (next : Nat) :
    First (runs ++ [⟨next, kind, .running, 0⟩]) next := by
  have none_ : (openRuns runs).find? (·.2 = kind) = none := Option.map_eq_none_iff.1 free
  refine first_iff.2 ⟨kind, ?_⟩
  rw [openRuns_append, List.find?_append, none_]
  simp

theorem First.closeRun (first : First runs owner) (other : owner ≠ id)
    (ends : status ≠ .running) : First (Tools.closeRun id status runs) owner := by
  obtain ⟨kind, search⟩ := first_iff.1 first
  refine first_iff.2 ⟨kind, ?_⟩
  rw [openRuns_closeRun ends]
  exact find?_filter_of search (decide_eq_true other)

theorem isRunning_closeRun (ends : status ≠ .running) :
    isRunning (Tools.closeRun id status runs) owner = true ↔
      isRunning runs owner = true ∧ owner ≠ id := by
  rw [isRunning_iff, isRunning_iff, openRuns_closeRun ends]
  simp

theorem isRunning_openRun {next : Nat} (other : owner ≠ next) :
    isRunning (runs ++ [⟨next, kind, .running, 0⟩]) owner = isRunning runs owner := by
  rw [isRunning, isRunning, List.any_append]
  simp [other.symm]

end Open

/-! ## The invariant -/

/-- What every step keeps. -/
structure Kept (b : Bracket) : Prop where
  named : b.context.sessionRunId = b.context.session.map Session.run
  below : ∀ s, b.context.session = some s → s.run < b.nextRun
  inner : b.inner = b.context.session.toList
  numbered : ∀ s ∈ b.launched, s.id < b.launched.length
  torn : ∀ x ∈ b.torn, x.1 ∈ b.launched ∧ x.2 = x.1.run ∧ b.context.session ≠ some x.1
  out : ∀ s ∈ b.launched, ¬ b.TornDown s → b.context.session = some s
  known : ∀ s, b.context.session = some s → s ∈ b.launched
  first : ∀ s, b.context.session = some s → isRunning b.runs s.run = true → First b.runs s.run

section Keeping

variable {b : Bracket} {runId : Nat} {kind : Kind} {status : Status} {w : World}

theorem Kept.fresh (fresh : Fresh b) : Kept b := by
  obtain ⟨session, owner, stack⟩ := fresh.session
  obtain ⟨launched, torn⟩ := fresh.none_launched
  refine ⟨?_, ?_, ?_, ?_, ?_, ?_, ?_, ?_⟩
  · rw [owner, session]
    rfl
  · simp [session]
  · rw [Bracket.inner, stack, session]
    rfl
  · simp [launched]
  · simp [torn]
  · simp [launched]
  · simp [session]
  · simp [session]

theorem Kept.owned (kept : Kept b) : Owned b := by
  refine ⟨?_, ?_, fun x mem => (kept.torn x mem).2.1⟩
  · intro s
    constructor
    · intro held
      refine ⟨?_, ?_, ?_⟩
      · rw [kept.inner, held]
        exact List.mem_singleton_self s
      · rintro ⟨run, mem⟩
        exact (kept.torn _ mem).2.2 held
      · rw [kept.named, held]
        rfl
    · rintro ⟨mem, -⟩
      rw [kept.inner] at mem
      exact Option.mem_toList.1 mem
  · intro s sMem t tMem sOut tOut
    exact Option.some.inj ((kept.out s sMem sOut).symm.trans (kept.out t tMem tOut))

theorem Kept.openRun (kept : Kept b) (kind : Kind) :
    Kept ((b.openRun kind).bind (some b.nextRun)) := by
  refine ⟨kept.named, fun s held => Nat.lt_succ_of_lt (kept.below s held), kept.inner,
    kept.numbered, kept.torn, kept.out, kept.known, ?_⟩
  intro s held running
  have old : isRunning b.runs s.run = true :=
    (isRunning_openRun (Nat.ne_of_lt (kept.below s held))).symm.trans running
  exact (kept.first s held old).openRun b.nextRun kind

theorem Kept.closeRun (kept : Kept b) (id : Nat) (ends : status ≠ .running) :
    Kept (b.closeRun id status) := by
  refine ⟨kept.named, kept.below, kept.inner, kept.numbered, kept.torn, kept.out, kept.known, ?_⟩
  intro s held running
  obtain ⟨old, other⟩ := (isRunning_closeRun ends).1 running
  exact (kept.first s held old).closeRun other ends

theorem Kept.bind (kept : Kept b) (id : Option Nat) : Kept (b.bind id) :=
  ⟨kept.named, kept.below, kept.inner, kept.numbered, kept.torn, kept.out, kept.known, kept.first⟩

theorem Kept.nest (kept : Kept b) : Kept b.nest :=
  ⟨kept.named, kept.below, kept.inner, kept.numbered, kept.torn, kept.out, kept.known, kept.first⟩

theorem lt_length_launched {l : List Session} (numbered : ∀ s ∈ l, s.id < l.length)
    (runId : Nat) : ∀ s ∈ l ++ [(⟨l.length, runId⟩ : Session)],
      s.id < (l ++ [(⟨l.length, runId⟩ : Session)]).length := by
  intro s mem
  rw [List.length_append, List.length_singleton]
  rcases List.mem_append.1 mem with old | new
  · exact Nat.lt_succ_of_lt (numbered s old)
  · rw [List.mem_singleton.1 new]
    exact Nat.lt_succ_self _

/-- A session that arrives dead leaves nothing on the inner stack. -/
theorem Kept.bury (kept : Kept b) (free : b.context.session = none) (runId : Nat) :
    Kept ((b.enter runId).closeStack runId) := by
  have empty : b.inner = [] := by
    rw [kept.inner, free]
    rfl
  have torn : ((b.enter runId).closeStack runId).torn =
      b.torn ++ [(⟨b.launched.length, runId⟩, runId)] := by
    show b.torn ++ (b.inner ++ [(⟨b.launched.length, runId⟩ : Session)]).map
      (fun s => (s, runId)) = _
    rw [empty]
    rfl
  refine ⟨kept.named, kept.below, ?_, lt_length_launched kept.numbered runId, ?_, ?_, ?_,
    kept.first⟩
  · show ([] : List Session) = b.context.session.toList
    rw [free]
    rfl
  · intro x mem
    rw [torn] at mem
    refine ⟨?_, ?_, ?_⟩
    · rcases List.mem_append.1 mem with old | new
      · exact List.mem_append_left _ (kept.torn x old).1
      · rw [List.mem_singleton.1 new]
        exact List.mem_append_right _ List.mem_cons_self
    · rcases List.mem_append.1 mem with old | new
      · exact (kept.torn x old).2.1
      · rw [List.mem_singleton.1 new]
    · show b.context.session ≠ _
      rw [free]
      exact fun none_ => Option.some_ne_none _ none_.symm
  · intro s mem out
    rcases List.mem_append.1 mem with old | new
    · refine kept.out s old fun ⟨run, mem⟩ => out ⟨run, ?_⟩
      rw [torn]
      exact List.mem_append_left _ mem
    · refine absurd ⟨runId, ?_⟩ out
      rw [torn, List.mem_singleton.1 new]
      exact List.mem_append_right _ List.mem_cons_self
  · exact fun s held => List.mem_append_left _ (kept.known s held)

/-- A session that arrives alive is held for the run that launched it. -/
theorem Kept.launch (kept : Kept b) (free : b.context.session = none) (below : runId < b.nextRun)
    (first : First b.runs runId) :
    Kept ((b.enter runId).hold (some ⟨b.launched.length, runId⟩)) := by
  have empty : b.inner = [] := by
    rw [kept.inner, free]
    rfl
  refine ⟨rfl, ?_, ?_, lt_length_launched kept.numbered runId, ?_, ?_, ?_, ?_⟩
  · intro s held
    cases held
    exact below
  · show b.inner ++ [⟨b.launched.length, runId⟩] = [⟨b.launched.length, runId⟩]
    rw [empty]
    rfl
  · intro x mem
    obtain ⟨old, owner, -⟩ := kept.torn x mem
    refine ⟨List.mem_append_left _ old, owner, fun same => ?_⟩
    have number := kept.numbered _ old
    rw [← Option.some.inj same] at number
    exact Nat.lt_irrefl _ number
  · intro s mem out
    rcases List.mem_append.1 mem with old | new
    · have held := kept.out s old out
      rw [free] at held
      contradiction
    · rw [List.mem_singleton.1 new]
      rfl
  · intro s held
    cases held
    exact List.mem_append_right _ List.mem_cons_self
  · intro s held _
    cases held
    exact first

theorem Kept.openFor (kept : Kept b) (below : runId < b.nextRun) (first : First b.runs runId) :
    Kept (openFor w runId kind b).2 := by
  rw [Live.openFor]
  split
  · exact kept
  · split
    · exact kept
    · split
      · exact kept
      · rename_i none_
        have free : b.context.session = none := Option.not_isSome_iff_eq_none.1 none_
        split
        · exact kept.nest
        · have buried := kept.bury free runId
          split
          · exact kept.launch free below first
          · rw [arrivedDead]
            split <;> exact buried
          · rw [arrivedDead]
            split <;> exact buried

theorem Kept.started (kept : Kept b) : Kept (start kind w b).2 := by
  rw [Live.start]
  split
  · exact kept
  · rename_i free
    exact (kept.openRun kind).openFor (Nat.lt_succ_self _) (first_openRun free _)

/-- The owner's session is torn down and forgotten. -/
theorem Kept.release (kept : Kept b) (owner : b.context.sessionRunId = some runId) :
    Kept ((b.closeStack runId).hold none) := by
  have torn : ((b.closeStack runId).hold none).torn =
      b.torn ++ b.context.session.toList.map fun s => (s, runId) := by
    rw [← kept.inner]
    rfl
  refine ⟨rfl, ?_, rfl, kept.numbered, ?_, ?_, ?_, ?_⟩
  · exact fun s held => absurd held.symm (Option.some_ne_none s)
  · intro x mem
    rw [torn] at mem
    refine ⟨?_, ?_, fun held => absurd held.symm (Option.some_ne_none _)⟩
    · rcases List.mem_append.1 mem with old | new
      · exact (kept.torn x old).1
      · obtain ⟨s, held, rfl⟩ := List.mem_map.1 new
        exact kept.known s (Option.mem_toList.1 held)
    · rcases List.mem_append.1 mem with old | new
      · exact (kept.torn x old).2.1
      · obtain ⟨s, held, rfl⟩ := List.mem_map.1 new
        rw [kept.named, Option.mem_toList.1 held] at owner
        exact (Option.some.inj owner).symm
  · intro s mem out
    refine absurd ?_ out
    by_cases before : b.TornDown s
    · obtain ⟨run, old⟩ := before
      refine ⟨run, ?_⟩
      rw [torn]
      exact List.mem_append_left _ old
    · refine ⟨runId, ?_⟩
      rw [torn, kept.out s mem before]
      exact List.mem_append_right _ List.mem_cons_self
  · exact fun s held => absurd held.symm (Option.some_ne_none s)
  · exact fun s held => absurd held.symm (Option.some_ne_none s)

theorem openFor_of_held (held : b.context.session.isSome = true) :
    (openFor w runId kind b).2 = b := by
  rw [Live.openFor]
  split
  · rfl
  · split
    · rfl
    · rfl

theorem closeFor_of_other (other : b.context.sessionRunId ≠ some runId) :
    closeFor w runId b = (.ok false, b) := by
  rw [closeFor, if_pos (.inr other)]

theorem closeFor_of_owner {s : Session} (held : b.context.session = some s)
    (owner : b.context.sessionRunId = some runId) :
    (closeFor w runId b).2 = (b.closeStack runId).hold none ∧
      (closeFor w runId b).1 = match w.teardown with
        | none => .ok true
        | some exc => .error exc := by
  have own : ¬ (b.context.session = none ∨ b.context.sessionRunId ≠ some runId) := by
    rintro (none_ | other)
    · rw [held] at none_
      contradiction
    · exact other owner
  rw [closeFor, if_neg own]
  cases w.teardown with
  | none => exact ⟨rfl, rfl⟩
  | some exc => exact ⟨rfl, rfl⟩

theorem Kept.closeFor (kept : Kept b) : Kept (closeFor w runId b).2 := by
  by_cases owner : b.context.sessionRunId = some runId
  · have held : ∃ s, b.context.session = some s := by
      rw [kept.named] at owner
      obtain ⟨s, held, -⟩ := Option.map_eq_some_iff.1 owner
      exact ⟨s, held⟩
    obtain ⟨s, held⟩ := held
    rw [(closeFor_of_owner held owner).1]
    exact kept.release owner
  · rw [closeFor_of_other owner]
    exact kept

theorem Kept.finishClosing (kept : Kept b) (ends : status ≠ .running) (closed : Nat) :
    Kept (finishClosing status closed w b).2 := by
  have after : Kept (Live.closeFor w closed (b.closeRun closed status)).2 :=
    (kept.closeRun closed ends).closeFor
  rw [Live.finishClosing]
  split
  · rename_i raised
    rw [raised] at after
    exact after
  · rename_i answered
    rw [answered] at after
    dsimp only
    split
    · exact after.bind none
    · exact after

theorem Kept.finished (kept : Kept b) (ends : status ≠ .running) {kind : Option Kind} :
    Kept (finish status kind w b).2 := by
  rw [finish]
  split
  · exact kept
  · exact kept.finishClosing ends _

theorem ne_running_of_agent (said : status ∈ agentStatuses) : status ≠ .running := by
  rintro rfl
  exact absurd said (by decide)

/-- A `run.finish` that passes the door has one of the agent's statuses. -/
theorem ends_of_passes {halt why note : Option String} {kind : Option Kind}
    (passes : refusal halt why (.finish status note kind) = none) : status ≠ .running := by
  have clean : problems (.finish status note kind) = [] := by
    rw [refusal] at passes
    by_contra some_
    rw [if_pos some_] at passes
    split at passes
    · contradiction
    · split at passes
      · contradiction
      · split at passes <;> contradiction
  have first := (List.append_eq_nil_iff.1 clean).1
  split at first
  · rename_i said
    exact ne_running_of_agent said
  · contradiction

theorem Kept.dispatch (kept : Kept b) (halt why : Option String) (call : Call) (w : World) :
    Kept (dispatch halt why call w b).2 := by
  rw [Live.dispatch]
  split
  · exact kept
  · rename_i passes
    cases call with
    | start kind => exact kept.started
    | finish status note kind => exact kept.finished (ends_of_passes passes)

theorem Kept.step {e : Event} {b' : Bracket} (kept : Kept b) (st : Step b e b') : Kept b' := by
  cases st with
  | called halt why call w => exact kept.dispatch halt why call w
  | endedElsewhere id ends => exact kept.closeRun id ends

theorem kept_of_history {h : List Event} (run : system.History h b) : Kept b :=
  run.reachable.invariant (fun _ fresh => .fresh fresh) fun _ _ _ kept st => kept.step st

end Keeping

/-! ## What a call can release -/

section Releasing

variable {b b' : Bracket} {s : Session} {w : World} {kind : Option Kind} {status : Status}

/-- The owner can be named: by the binding, or by the kind of a run that is open. -/
def Named (b : Bracket) : Prop :=
  ∀ s, b.context.session = some s →
    b.context.boundRunId = some s.run ∨ isRunning b.runs s.run = true

theorem passes_finish (halt : Option String) (kind : Option Kind) :
    refusal halt (some "done") (.finish .completed none kind) = none := by
  have exempt : ¬ (halt.isSome = true ∧
      (Call.finish .completed none kind).name ∉ haltExempt) := fun both =>
    both.2 (show "run.finish" ∈ haltExempt by decide)
  have said : ¬ Python.strip ((some "done").getD "").toList = [] := by decide
  rw [refusal, if_neg exempt, if_neg said]
  rfl

theorem runId_of_bound {id : Nat} (bound : b.context.boundRunId = some id)
    (running : List (Nat × Kind)) : runId b running = some id := by
  rw [runId.eq_def]
  simp only [bound]

theorem target_ok {id : Nat} (target : finishTarget kind b = .ok id) :
    b.context.boundRunId = some id ∨ isRunning b.runs id = true := by
  rw [finishTarget.eq_def] at target
  split at target
  · split at target
    · rename_i found
      cases target
      exact .inr (First.isRunning ⟨_, found⟩)
    · contradiction
  · split at target
    · rename_i found
      cases target
      rw [runId.eq_def] at found
      split at found
      · rename_i bound
        cases found
        exact .inl bound
      · split at found
        · rename_i only
          cases found
          exact .inr (isRunning_iff.2 ⟨_, only ▸ List.mem_cons_self⟩)
        · contradiction
    · split at target <;> contradiction

theorem exists_target (kept : Kept b) (named : Named b) (held : b.context.session = some s) :
    ∃ kind, finishTarget kind b = .ok s.run := by
  rcases named s held with bound | running
  · refine ⟨none, ?_⟩
    simp only [finishTarget, runId_of_bound bound]
  · obtain ⟨kind, found⟩ := kept.first s held running
    refine ⟨some kind, ?_⟩
    simp only [finishTarget, found]

/-- Closing the owner tears its session down, whatever the teardown raises. -/
theorem finishClosing_owner (held : b.context.session = some s)
    (owner : b.context.sessionRunId = some s.run) (inner : s ∈ b.inner) :
    (finishClosing status s.run w b).1.accepted = true ∧
      (finishClosing status s.run w b).2.TornDown s ∧
      (finishClosing status s.run w b).2.context.session = none := by
  obtain ⟨after, answer⟩ := closeFor_of_owner (w := w) (b := b.closeRun s.run status) held owner
  have torn : ((b.closeRun s.run status).closeStack s.run).TornDown s :=
    ⟨s.run, List.mem_append_right _ (List.mem_map.2 ⟨s, inner, rfl⟩)⟩
  have split : closeFor w s.run (b.closeRun s.run status) =
      ((closeFor w s.run (b.closeRun s.run status)).1,
        ((b.closeRun s.run status).closeStack s.run).hold none) := Prod.ext rfl after
  rw [finishClosing, split, answer]
  cases w.teardown with
  | none =>
      refine ⟨rfl, ?_⟩
      dsimp only
      split <;> exact ⟨torn, rfl⟩
  | some exc => exact ⟨rfl, torn, rfl⟩

/-- Closing any other run leaves the session where it is. -/
theorem finishClosing_other {closed : Nat} (other : b.context.sessionRunId ≠ some closed) :
    (finishClosing status closed w b).2 =
      if runId b (openRuns b.runs) = some closed then (b.closeRun closed status).bind none
      else b.closeRun closed status := by
  rw [finishClosing, closeFor_of_other (b := b.closeRun closed status) other]
  rfl

theorem owner_of_held (kept : Kept b) (held : b.context.session = some s) :
    b.context.sessionRunId = some s.run := by
  rw [kept.named, held]
  rfl

/-- A call releases the session exactly where its owner can be named. -/
theorem releasable_iff (kept : Kept b) : Releasable b ↔ Named b := by
  constructor
  · intro releasable s held
    obtain ⟨why, call, isFinish, closes⟩ := releasable s held
    obtain ⟨-, -, free⟩ := closes none ⟨none, .alive, none, 0, 0, 0⟩
    cases call with
    | start kind => exact absurd (show "run.start" = "run.finish" from isFinish) (by decide)
    | finish status note kind =>
        rw [dispatch] at free
        split at free
        · rw [held] at free
          contradiction
        · rw [handle, finish] at free
          split at free
          · rw [held] at free
            contradiction
          · rename_i closed target
            by_cases own : s.run = closed
            · exact own ▸ target_ok target
            · have other : b.context.sessionRunId ≠ some closed := by
                rw [owner_of_held kept held]
                exact fun same => own (Option.some.inj same)
              rw [finishClosing_other other] at free
              split at free <;>
                exact absurd (held.symm.trans free) (Option.some_ne_none s)
  · intro named s held
    obtain ⟨kind, target⟩ := exists_target kept named held
    refine ⟨some "done", .finish .completed none kind, rfl, fun halt w => ?_⟩
    have inner : s ∈ b.inner := by
      rw [kept.inner, held]
      exact List.mem_singleton_self s
    have done : dispatch halt (some "done") (.finish .completed none kind) w b =
        finishClosing .completed s.run w b := by
      rw [dispatch, passes_finish]
      simp only [handle, finish, target]
    rw [done]
    exact finishClosing_owner held (owner_of_held kept held) inner

/-! ## What a step does to that -/

theorem named_closeRun (kept : Kept b) (named : Named b) (id : Nat) (ends : status ≠ .running) :
    Named (b.closeRun id status) ↔
      (b.context.sessionRunId = some id → b.context.boundRunId = some id) := by
  constructor
  · intro after owner
    rw [kept.named] at owner
    obtain ⟨s, held, rfl⟩ := Option.map_eq_some_iff.1 owner
    rcases after s held with bound | running
    · exact bound
    · exact absurd rfl ((isRunning_closeRun ends).1 running).2
  · intro safe s held
    by_cases own : s.run = id
    · exact .inl (own ▸ safe (own ▸ owner_of_held kept held))
    · rcases named s held with bound | running
      · exact .inl bound
      · exact .inr ((isRunning_closeRun ends).2 ⟨running, own⟩)

theorem named_finish (kept : Kept b) (named : Named b) (ends : status ≠ .running) :
    Named (finish status kind w b).2 := by
  rw [finish]
  split
  · exact named
  · rename_i closed target
    by_cases own : b.context.sessionRunId = some closed
    · obtain ⟨s, held, rfl⟩ := Option.map_eq_some_iff.1 (kept.named ▸ own)
      have inner : s ∈ b.inner := by
        rw [kept.inner, held]
        exact List.mem_singleton_self s
      have free : (finishClosing status s.run w b).2.context.session = none :=
        (finishClosing_owner held own inner).2.2
      intro t there
      exact absurd (there.symm.trans free) (Option.some_ne_none t)
    · have closing := (named_closeRun kept named closed ends).2 fun owner => absurd owner own
      rw [finishClosing_other own]
      split
      · rename_i unbound
        intro s held
        rcases closing s held with bound | running
        · exact absurd ((owner_of_held kept held).trans
            ((runId_of_bound bound _).symm.trans unbound)) own
        · exact .inr running
      · exact closing

/-- Opening a run binds it, so the owner has to be open for the session to be named after. -/
theorem named_start (kept : Kept b) {kind : Kind} (free : openOfKind b.runs kind = none) :
    Named (start kind w b).2 ↔
      ∀ owner, b.context.sessionRunId = some owner → isRunning b.runs owner = true := by
  rw [start, free]
  dsimp only
  rcases taken : b.context.session with _ | s
  · have unowned : b.context.sessionRunId = none := by
      rw [kept.named, taken]
      rfl
    refine iff_of_true ?_ fun owner own => absurd (own.symm.trans unowned) (Option.some_ne_none _)
    have none_ : ((b.openRun kind).bind (some b.nextRun)).context.session = none := taken
    have stays : ∀ c : Bracket, c.context.session = none → Named c := fun c gone s held =>
      absurd (held.symm.trans gone) (Option.some_ne_none s)
    rw [openFor]
    split
    · exact stays _ none_
    · split
      · exact stays _ none_
      · split
        · exact stays _ none_
        · split
          · exact stays _ none_
          · split
            · intro s held
              cases held
              exact .inl rfl
            · rw [arrivedDead]
              split <;> exact stays _ none_
            · rw [arrivedDead]
              split <;> exact stays _ none_
  · have kept_ : ((b.openRun kind).bind (some b.nextRun)).context.session.isSome = true :=
      congrArg Option.isSome taken
    have same : (openFor w b.nextRun kind ((b.openRun kind).bind (some b.nextRun))).2 =
        (b.openRun kind).bind (some b.nextRun) := openFor_of_held kept_
    rw [same]
    have owner := owner_of_held kept taken
    have other : s.run ≠ b.nextRun := Nat.ne_of_lt (kept.below s taken)
    constructor
    · intro after id own
      cases owner.symm.trans own
      rcases after s taken with bound | running
      · exact absurd (Option.some.inj bound).symm other
      · exact (isRunning_openRun other).symm.trans running
    · intro running t held
      cases taken.symm.trans held
      exact .inr ((isRunning_openRun other).trans (running s.run owner))

/-- A state in which the session can be released leads to one exactly by the safe steps. -/
theorem releasable_step {e : Event} (kept : Kept b) (before : Releasable b) (st : Step b e b') :
    Releasable b' ↔ Safe b e := by
  have named := (releasable_iff kept).1 before
  rw [releasable_iff (kept.step st)]
  cases st with
  | endedElsewhere id ends => exact named_closeRun kept named id ends
  | called halt why call w =>
      cases passes : refusal halt why call with
      | some answer =>
          rw [dispatch, passes]
          cases call with
          | start kind =>
              refine iff_of_true named (.inl ?_)
              rw [passes]
              exact Option.some_ne_none answer
          | finish status note kind => exact iff_of_true named trivial
      | none =>
          rw [dispatch, passes]
          cases call with
          | start kind =>
              by_cases free : openOfKind b.runs kind = none
              · refine (named_start kept free).trans ⟨fun open_ => .inr (.inr open_), ?_⟩
                rintro (refused | taken | open_)
                · exact absurd passes refused
                · exact absurd free taken
                · exact open_
              · refine iff_of_true ?_ (.inr (.inl free))
                obtain ⟨id, found⟩ := Option.ne_none_iff_exists'.1 free
                simp only [handle, start, found]
                exact named
          | finish status note kind =>
              exact iff_of_true (named_finish kept named (ends_of_passes passes)) trivial

end Releasing

/-! ## Runs -/

variable {b : Bracket} {h : List Event}

theorem releasable_of_safe (run : (system.restrict Safe).History h b) : Releasable b := by
  induction run with
  | start fresh =>
      intro s held
      rw [fresh.session.1] at held
      contradiction
  | step past st ih =>
      exact (releasable_step (kept_of_history past.of_restrict) ih st.1).2 st.2

/-- In every run the context owns what it holds. The session can be released in every state
of a run of safe steps, and from such a state no other step leads to one. -/
theorem held_released (run : system.History h b) :
    Owned b ∧ ((system.restrict Safe).History h b → Releasable b) ∧
      (Releasable b → ∀ e b', Step b e b' → (Releasable b' ↔ Safe b e)) :=
  ⟨(kept_of_history run).owned, releasable_of_safe, fun before _ _ st =>
    releasable_step (kept_of_history run) before st⟩

/-- A session that arrives alive, and a teardown that does not raise. -/
def alive : World := ⟨none, .alive, none, 8080, 8081, 0⟩

/-- A context that can hold a session, on a store without runs. -/
def blank : Bracket :=
  ⟨[], 1, ⟨true, "standard", none, none, none, [], none⟩, [], []⟩

theorem fresh_blank : Fresh blank :=
  ⟨List.nodup_nil, fun _ mem => absurd mem List.not_mem_nil, ⟨rfl, rfl, rfl⟩, rfl, rfl, rfl⟩

/-- A call with its reason. -/
def reasoned (call : Call) : Event := .called none (some "next") call alive

/-- A manual run that holds the session. -/
def manual : Bracket := (dispatch none (some "next") (.start .manual) alive blank).2

theorem manual_run : system.History [reasoned (.start .manual)] manual :=
  (System.History.start fresh_blank).step (.called none (some "next") (.start .manual) alive)

theorem manual_released : Owned manual ∧
    ((system.restrict Safe).History [reasoned (.start .manual)] manual → Releasable manual) ∧
      (Releasable manual → ∀ e b', Step manual e b' → (Releasable b' ↔ Safe manual e)) :=
  held_released manual_run

/-- A scan is opened beside the manual run, and the manual run is reaped. -/
def reaped : Bracket :=
  (dispatch none (some "next") (.start .scan) alive manual).2.closeRun 1 .error

theorem reaped_run : system.History [.endedElsewhere 1 .error, reasoned (.start .scan),
    reasoned (.start .manual)] reaped :=
  (manual_run.step (.called none (some "next") (.start .scan) alive)).step
    (.endedElsewhere 1 (by decide))

/-- No call gives back the session of a run that was reaped while another is bound. -/
theorem reaped_keeps_session :
    ¬ ∀ h b, system.History h b → Owned b ∧ Releasable b := by
  intro all
  have named := (releasable_iff (kept_of_history reaped_run)).1 (all _ _ reaped_run).2
  have held : reaped.context.session = some ⟨0, 1⟩ := by decide
  rcases named _ held with bound | running
  · have other : reaped.context.boundRunId ≠ some 1 := by decide
    exact other bound
  · have ended : isRunning reaped.runs 1 = false := by decide
    exact Bool.false_ne_true (ended.symm.trans running)

end Hx.Tools.Live
