import Hx.Library.Prefixes
import Hx.Python.Text
import Mathlib.Data.List.Basic
import Mathlib.Logic.Function.Basic

/-!
# Triage and its trail

`set_status` reads the status of a finding, decides, and writes the event and the new status
in a transaction. Any number of calls run side by side with the upserts of checks and agents:
a call is in flight between its read and its transaction. The status and the last event always
agree. The links of the trail do exactly as long as nothing else was written to the finding
while a call was in flight.
-/

namespace Hx.Store.Triage

open Hx.Library Hx.Python

/-! ## One call -/

/-- `finding.status`. -/
inductive Status where
  | new
  | triaged
  | confirmed
  | falsePositive
  | reported
  deriving DecidableEq

/-- A status as the column spells it. -/
def Status.text : Status → String
  | new => "new"
  | triaged => "triaged"
  | confirmed => "confirmed"
  | falsePositive => "false_positive"
  | reported => "reported"

/-- `TARGETS`. -/
def targets : List Status := [.confirmed, .falsePositive]

/-- `NOTE_REQUIRED`. -/
def noteRequired : List Status := [.falsePositive]

/-- A `finding_status_event`. Its actor is always `human`. -/
structure StatusEvent where
  finding : String
  fromStatus : Status
  toStatus : Status
  note : Option (List Char)
  tsUs : Int
  deriving DecidableEq

inductive TriageError where
  | notADecision (toStatus : String)
  | noNote (toStatus : Status)
  | noFinding (finding : String)
  deriving DecidableEq

/-- What a call is given. -/
structure Decision where
  finding : String
  toStatus : String
  note : Option (List Char)
  nowUs : Int

/-- What a call comes to before its transaction. -/
inductive Outcome where
  | refused (error : TriageError)
  | unchanged (current : Status)
  | writes (event : StatusEvent)
  deriving DecidableEq

/-- The rows of `finding` and `finding_status_event` a triage works on, the events in
insertion order, and the calls that are past their read. -/
structure Ledger where
  status : String → Option Status
  events : List StatusEvent
  inFlight : List StatusEvent

namespace Ledger

def empty : Ledger := ⟨fun _ => none, [], []⟩

/-- `set_status`, up to its transaction. -/
def setStatus (l : Ledger) (d : Decision) : Outcome :=
  match targets.find? fun s => s.text = d.toStatus with
  | none => .refused (.notADecision d.toStatus)
  | some target =>
      let text := d.note.map strip
      if target ∈ noteRequired ∧ text.getD [] = [] then .refused (.noNote target)
      else
        match l.status d.finding with
        | none => .refused (.noFinding d.finding)
        | some current =>
            if current = target then .unchanged current
            else .writes ⟨d.finding, current, target, text, d.nowUs⟩

/-- The transaction of `set_status`. -/
def write (l : Ledger) (e : StatusEvent) : Ledger :=
  { l with
    status := Function.update l.status e.finding (some e.toStatus)
    events := l.events ++ [e] }

/-- `upsert_finding`: the literal `new` where there is no row, and no change of a status. -/
def upsertFinding (l : Ledger) (finding : String) : Ledger :=
  match l.status finding with
  | some _ => l
  | none => { l with status := Function.update l.status finding (some .new) }

end Ledger

/-! ## Any number of calls -/

inductive Action where
  | upsert (finding : String)
  /-- A call runs up to its transaction. -/
  | call (d : Decision)
  /-- The transaction of a call in flight commits. -/
  | commit (i : Nat)
  /-- The transaction of a call in flight raises and is rolled back. -/
  | fail (i : Nat)

def act (l : Ledger) : Action → Ledger
  | .upsert finding => l.upsertFinding finding
  | .call d =>
      match l.setStatus d with
      | .writes e => { l with inFlight := l.inFlight ++ [e] }
      | _ => l
  | .commit i =>
      match l.inFlight[i]? with
      | some e => { l.write e with inFlight := l.inFlight.eraseIdx i }
      | none => l
  | .fail i => { l with inFlight := l.inFlight.eraseIdx i }

def run (acts : List Action) : Ledger := acts.foldl act .empty

/-! ## The trail -/

/-- The events of one finding. -/
def Ledger.trail (l : Ledger) (finding : String) : List StatusEvent :=
  l.events.filter fun e => e.finding = finding

/-- Where a trail leads from a status. -/
def lastTo : Status → List StatusEvent → Status
  | s, [] => s
  | _, e :: rest => lastTo e.toStatus rest

/-- Each event starts where the one before it led, and leads elsewhere. -/
def Linked : Status → List StatusEvent → Prop
  | _, [] => True
  | s, e :: rest => e.fromStatus = s ∧ e.fromStatus ≠ e.toStatus ∧ Linked e.toStatus rest

/-- The status of every finding is the one its trail leads to from `new`, and the trail is a
chain. -/
structure Consistent (l : Ledger) : Prop where
  cached : ∀ f s, l.status f = some s → s = lastTo .new (l.trail f)
  chain : ∀ f, Linked .new (l.trail f)

/-- Nothing was written to the finding between the read of a call and its transaction. -/
def Fresh (l : Ledger) : Action → Prop
  | .commit i => ∀ e, l.inFlight[i]? = some e → l.status e.finding = some e.fromStatus
  | _ => True

theorem lastTo_append (s : Status) (es : List StatusEvent) (e : StatusEvent) :
    lastTo s (es ++ [e]) = e.toStatus := by
  induction es generalizing s with
  | nil => rfl
  | cons first rest ih => exact ih first.toStatus

theorem linked_append (s : Status) (es : List StatusEvent) (e : StatusEvent) :
    Linked s (es ++ [e]) ↔
      Linked s es ∧ e.fromStatus = lastTo s es ∧ e.fromStatus ≠ e.toStatus := by
  induction es generalizing s with
  | nil => simp [Linked, lastTo]
  | cons first rest ih =>
      rw [List.cons_append, Linked, ih, Linked, lastTo, and_assoc, and_assoc]

/-- What holds whatever runs side by side: the status is the last event's, only findings on
file have events, and a call in flight changes a finding on file. -/
structure Kept (l : Ledger) : Prop where
  cached : ∀ f s, l.status f = some s → s = lastTo .new (l.trail f)
  filed : ∀ f, l.status f = none → l.trail f = []
  inFlight : ∀ e ∈ l.inFlight, l.status e.finding ≠ none ∧ e.fromStatus ≠ e.toStatus

namespace Kept

variable {l : Ledger}

theorem empty : Kept .empty := ⟨nofun, fun _ _ => rfl, nofun⟩

theorem upsert (kept : Kept l) (finding : String) : Kept (l.upsertFinding finding) := by
  rw [Ledger.upsertFinding]
  cases known : l.status finding with
  | some s => exact kept
  | none =>
      refine ⟨fun f s some_ => ?_, fun f none_ => ?_, fun e mem => ?_⟩
      · change Function.update l.status finding (some .new) f = some s at some_
        by_cases same : f = finding
        · rw [same, Function.update_self] at some_
          have start : l.trail f = [] := same ▸ kept.filed finding known
          change s = lastTo .new (l.trail f)
          rw [start]
          exact (Option.some.inj some_).symm
        · rw [Function.update_of_ne same] at some_
          exact kept.cached f s some_
      · change Function.update l.status finding (some .new) f = none at none_
        by_cases same : f = finding
        · rw [same, Function.update_self] at none_
          contradiction
        · rw [Function.update_of_ne same] at none_
          exact kept.filed f none_
      · obtain ⟨there, moves⟩ := kept.inFlight e mem
        have other : e.finding ≠ finding := fun same => there (same ▸ known)
        refine ⟨?_, moves⟩
        change Function.update l.status finding (some .new) e.finding ≠ none
        rwa [Function.update_of_ne other]

theorem call (kept : Kept l) {d : Decision} {e : StatusEvent} (h : l.setStatus d = .writes e) :
    Kept { l with inFlight := l.inFlight ++ [e] } := by
  refine ⟨kept.cached, kept.filed, fun e' mem => ?_⟩
  obtain mem | mem := List.mem_append.1 mem
  · exact kept.inFlight e' mem
  · rw [List.mem_singleton.1 mem]
    rw [Ledger.setStatus] at h
    split at h
    · contradiction
    · dsimp only at h
      split at h
      · contradiction
      · split at h
        · contradiction
        · rename_i current known
          split at h
          · contradiction
          · rename_i moves
            obtain rfl := Outcome.writes.inj h
            exact ⟨fun none_ => Option.some_ne_none _ (known.symm.trans none_), moves⟩

theorem trail_write (e : StatusEvent) (f : String) :
    (l.write e).trail f = if e.finding = f then l.trail f ++ [e] else l.trail f := by
  rw [Ledger.trail, Ledger.write, List.filter_append]
  by_cases own : e.finding = f
  · rw [if_pos own, List.filter_cons, if_pos (decide_eq_true own)]
    rfl
  · rw [if_neg own, List.filter_cons, if_neg (by simpa using own)]
    exact List.append_nil _

theorem write (kept : Kept l) {e : StatusEvent} {left : List StatusEvent}
    (mem : e ∈ l.inFlight) (fewer : left ⊆ l.inFlight) :
    Kept { l.write e with inFlight := left } := by
  have known := (kept.inFlight e mem).1
  refine ⟨fun f s some_ => ?_, fun f none_ => ?_, fun e' there => ?_⟩
  · change Function.update l.status e.finding (some e.toStatus) f = some s at some_
    change s = lastTo .new ((l.write e).trail f)
    rw [trail_write]
    by_cases own : f = e.finding
    · rw [own, Function.update_self] at some_
      rw [if_pos own.symm, lastTo_append]
      exact (Option.some.inj some_).symm
    · rw [Function.update_of_ne own] at some_
      rw [if_neg (Ne.symm own)]
      exact kept.cached f s some_
  · change Function.update l.status e.finding (some e.toStatus) f = none at none_
    change (l.write e).trail f = []
    by_cases own : f = e.finding
    · rw [own, Function.update_self] at none_
      contradiction
    · rw [Function.update_of_ne own] at none_
      rw [trail_write, if_neg (Ne.symm own)]
      exact kept.filed f none_
  · obtain ⟨there, moves⟩ := kept.inFlight e' (fewer there)
    refine ⟨?_, moves⟩
    change Function.update l.status e.finding (some e.toStatus) e'.finding ≠ none
    by_cases own : e'.finding = e.finding
    · rw [own, Function.update_self]
      exact Option.some_ne_none _
    · rwa [Function.update_of_ne own]

theorem act (kept : Kept l) (a : Action) : Kept (act l a) := by
  cases a with
  | upsert finding => exact kept.upsert finding
  | call d =>
      rw [Triage.act]
      split
      · rename_i e writes
        exact kept.call writes
      · exact kept
  | commit i =>
      rw [Triage.act]
      split
      · rename_i e there
        exact kept.write (List.mem_of_getElem? there) List.eraseIdx_subset
      · exact kept
  | fail i =>
      exact ⟨kept.cached, kept.filed, fun e mem => kept.inFlight e (List.eraseIdx_subset mem)⟩

end Kept

theorem kept_run (acts : List Action) : Kept (run acts) := by
  induction acts using List.reverseRecOn with
  | nil => exact .empty
  | append_singleton acts a ih =>
      rw [run, List.foldl_append]
      exact ih.act a

/-- After a step the trails are chains exactly if they were and the step is fresh. -/
theorem chain_act {l : Ledger} (kept : Kept l) (chain : ∀ f, Linked .new (l.trail f))
    (a : Action) : (∀ f, Linked .new ((act l a).trail f)) ↔ Fresh l a := by
  cases a with
  | upsert finding =>
      refine iff_of_true (fun f => ?_) trivial
      rw [act, Ledger.upsertFinding]
      split <;> exact chain f
  | call d =>
      refine iff_of_true (fun f => ?_) trivial
      rw [act]
      split <;> exact chain f
  | fail i => exact iff_of_true chain trivial
  | commit i =>
      rw [Fresh, act]
      cases there : l.inFlight[i]? with
      | none => exact iff_of_true chain nofun
      | some e =>
          obtain ⟨filed, moves⟩ := kept.inFlight e (List.mem_of_getElem? there)
          obtain ⟨s, known⟩ := Option.ne_none_iff_exists'.1 filed
          have last := kept.cached e.finding s known
          have fresh : (∀ e', some e = some e' → l.status e'.finding = some e'.fromStatus) ↔
              e.fromStatus = lastTo .new (l.trail e.finding) := by
            rw [← last]
            constructor
            · intro all
              exact Option.some.inj ((all e rfl).symm.trans known)
            · rintro same e' ⟨⟩
              exact known.trans (congrArg some same.symm)
          rw [fresh]
          dsimp only
          constructor
          · intro all
            have own : Linked .new ((l.write e).trail e.finding) := all e.finding
            rw [Kept.trail_write, if_pos rfl, linked_append] at own
            exact own.2.1
          · intro same f
            show Linked .new ((l.write e).trail f)
            rw [Kept.trail_write]
            split
            · rename_i own
              subst own
              exact (linked_append ..).2 ⟨chain _, same, moves⟩
            · exact chain f

/-- Every action of a run is fresh where it is taken. -/
def FreshRun (acts : List Action) : Prop := EachStep (fun past a => Fresh (run past) a) acts

/-- At every point of a run the status is the last event's and the trail is a chain, exactly if
no call of the run wrote on a status that had changed since its read. -/
theorem consistent_iff_fresh (acts : List Action) :
    (∀ k ≤ acts.length, Consistent (run (acts.take k))) ↔ FreshRun acts := by
  refine forall_points_iff (P := fun acts => Consistent (run acts))
    ⟨(kept_run []).cached, fun _ => trivial⟩ (fun acts a past => ?_) acts
  have whole : run (acts ++ [a]) = act (run acts) a := by
    rw [run, List.foldl_append]
    rfl
  rw [← chain_act (kept_run acts) past.chain a, ← whole]
  exact ⟨Consistent.chain, fun chain => ⟨(kept_run _).cached, chain⟩⟩

/-- Two operators confirm one new finding. -/
def twoOperators : List Action :=
  [.upsert "f1", .call ⟨"f1", "confirmed", none, 1⟩, .call ⟨"f1", "confirmed", none, 2⟩,
    .commit 0, .commit 0]

/-- The second event starts where the first one did. -/
theorem stale_link : ¬ ∀ k ≤ twoOperators.length, Consistent (run (twoOperators.take k)) := by
  intro all
  have own : Linked .new [⟨"f1", .new, .confirmed, none, 1⟩, ⟨"f1", .new, .confirmed, none, 2⟩] :=
    (all 5 (by decide)).chain "f1"
  exact absurd own.2.2.1 (by decide)

end Hx.Store.Triage
