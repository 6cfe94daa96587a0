import Hx.Store.Lifecycle
import Mathlib

/-!
# Passes beside each other

Calls of `scan.run` overlap with one another and with everything else that touches the run table,
and each of them may be killed at any statement. What a call files, it files under the run that
`current_run` handed it. Two calls stay apart as long as none of them comes to a live run that
another was handed; nothing in `current_run` sees to that.
-/

namespace Hx.Store.Beside

open Hx.Library Hx.Store

/-- The run table and its processes, the runs that were handed out, and the rows that were filed,
each with the process that filed it. -/
structure Passes where
  shared : Shared
  handed : List (Nat × Nat)
  checkRuns : List (Nat × CheckRun)
  observations : List (Nat × Observation)

/-- What happens: a statement of `run.py` or the end of a process, the `SELECT` of the `current_run`
of a pass, the `INSERT` of a check row, and `record_observation`. -/
inductive PassEvent where
  | life (e : Event)
  | asks (p : Nat) (at_ : Int)
  | opens (p : Nat) (row : CheckRun)
  | observes (p : Nat) (o : Observation)

/-- What the `SELECT` of `current_run` finds for a scan, and where it leads. -/
def asked (s : Shared) (p : Nat) (at_ : Int) : Shared :=
  s.ran p .select <| (s.runs.liveRun .scan).elim (.opening .scan at_) fun r =>
    if at_ - Engagement.lastSeen r ≤ idleCloseUs then .returning r.id
    else .idling r.id (Engagement.lastSeen r) .scan at_

/-- `ON CONFLICT(finding_id, run_id) DO UPDATE`. -/
def recorded (observations : List (Nat × Observation)) (p : Nat) (o : Observation) :
    List (Nat × Observation) :=
  observations.filter (fun x => ¬ (x.2.finding = o.finding ∧ x.2.run = o.run)) ++ [(p, o)]

/-- The runs handed out once an event is over. -/
def handing (handed : List (Nat × Nat)) : Event → List (Nat × Nat)
  | .handedOut p id => (p, id) :: handed
  | .ran _ _ | .left _ => handed

/-- `calls` are the processes that are calls of `scan.run`. -/
inductive PassStep (calls : Nat → Prop) : Passes → PassEvent → Passes → Prop where
  | life {b : Passes} {e : Event} {s : Shared} (st : Step b.shared e s)
      (other : calls e.process → e ≠ .ran e.process .select) :
      PassStep calls b (.life e) { b with shared := s, handed := handing b.handed e }
  | asks {b : Passes} {p : Nat} (at_ : Int) (call : calls p) (idle : b.shared.phase p = .idle) :
      PassStep calls b (.asks p at_) { b with shared := asked b.shared p at_ }
  | opens {b : Passes} {p : Nat} {row : CheckRun} (call : calls p)
      (held : (p, row.run) ∈ b.handed) :
      PassStep calls b (.opens p row) { b with checkRuns := b.checkRuns ++ [(p, row)] }
  | observes {b : Passes} {p : Nat} {o : Observation} (call : calls p)
      (held : (p, o.run) ∈ b.handed) :
      PassStep calls b (.observes p o)
        { b with observations := recorded b.observations p o }

/-- All interleavings of the calls and of whatever else uses the run table. -/
def passes (calls : Nat → Prop) : System Passes PassEvent where
  init b := b = ⟨⟨[], fun _ => .idle⟩, [], [], []⟩
  step := PassStep calls

/-- The call files rows under the run, or is about to. -/
def Taken (calls : Nat → Prop) (b : Passes) (p id : Nat) : Prop :=
  calls p ∧ ((p, id) ∈ b.handed ∨ b.shared.phase p = .returning id)

/-- The call filed a row under the run. -/
def Filed (b : Passes) (p id : Nat) : Prop :=
  (∃ row, (p, row) ∈ b.checkRuns ∧ row.run = id) ∨ ∃ o, (p, o) ∈ b.observations ∧ o.run = id

/-- No two calls filed rows under one run. -/
def Isolated (b : Passes) : Prop := ∀ p q id, Filed b p id → Filed b q id → p = q

/-- An observation stays until the call that made it makes another. -/
def Survives (b : Passes) (a : PassEvent) (b' : Passes) : Prop :=
  ∀ p o, (p, o) ∈ b.observations → (p, o) ∈ b'.observations ∨ ∃ o', a = .observes p o'

/-- `current_run` does not find, for a pass, a live run that another pass was handed. -/
def Alone (calls : Nat → Prop) (b : Passes) (a : PassEvent) : Prop :=
  ∀ p at_ r, a = .asks p at_ → b.shared.runs.liveRun .scan = some r →
    at_ - Engagement.lastSeen r ≤ idleCloseUs → ∀ q, Taken calls b q r.id → q = p

/-! ## What the passes keep -/

/-- Every run is taken by one call at most, and what is filed is filed by who has it. -/
structure Apart (calls : Nat → Prop) (b : Passes) : Prop where
  reached : lives.Reachable b.shared
  one : ∀ p q id, Taken calls b p id → Taken calls b q id → p = q
  there : ∀ p id, Taken calls b p id → rowOf id b.shared.rows ≠ none
  filed : ∀ p id, Filed b p id → calls p ∧ (p, id) ∈ b.handed

variable {calls : Nat → Prop} {b b' : Passes} {a : PassEvent}

theorem Apart.isolated (apart : Apart calls b) : Isolated b := by
  intro p q id mine yours
  obtain ⟨callP, heldP⟩ := apart.filed p id mine
  obtain ⟨callQ, heldQ⟩ := apart.filed q id yours
  exact apart.one p q id ⟨callP, .inl heldP⟩ ⟨callQ, .inl heldQ⟩

/-- Another call's observation under the run of this one is nobody's. -/
theorem Apart.survives (apart : Apart calls b) (st : PassStep calls b a b') : Survives b a b' := by
  intro p o mem
  cases st with
  | life st other => exact .inl mem
  | asks at_ call idle => exact .inl mem
  | opens call held => exact .inl mem
  | @observes q o' call held =>
      by_cases same : o.finding = o'.finding ∧ o.run = o'.run
      · obtain ⟨callP, heldP⟩ := apart.filed p o.run (.inr ⟨o, mem, rfl⟩)
        rw [← same.2] at held
        obtain rfl := apart.one p q o.run ⟨callP, .inl heldP⟩ ⟨call, .inl held⟩
        exact .inr ⟨o', rfl⟩
      · exact .inl (List.mem_append_left _ (List.mem_filter.2 ⟨mem, decide_eq_true same⟩))

/-- What `asks` does is what the `SELECT` of `current_run` does. -/
theorem asked_step {s : Shared} {p : Nat} (at_ : Int) (idle : s.phase p = .idle) :
    Step s (.ran p .select) (asked s p at_) := by
  rw [asked]
  cases found : s.runs.liveRun .scan with
  | none => exact .currentNone at_ idle found
  | some r =>
      by_cases live : at_ - Engagement.lastSeen r ≤ idleCloseUs
      · rw [Option.elim_some, if_pos live]
        exact .currentLive idle found live
      · rw [Option.elim_some, if_neg live]
        exact .currentIdle idle found live

/-- A process gets to its return by a `SELECT` or by the `INSERT` of a new run. -/
theorem returning_step {s t : Shared} {e : Event} (st : Step s e t) {p id : Nat}
    (phase : t.phase p = .returning id) :
    s.phase p = .returning id ∨ e = .ran p .select ∨
      ∃ kind at_, e = .ran p (.insert id kind at_) ∧ rowOf id s.rows = none := by
  have moved {p' : Nat} {phase' : Phase} (ht : t.phase = Function.update s.phase p' phase') :
      s.phase p = .returning id ∨ (p' = p ∧ phase' = .returning id) := by
    rw [ht, Function.update_apply] at phase
    split at phase
    next same => exact .inr ⟨same.symm, phase⟩
    next => exact .inl phase
  cases st with
  | currentLive idle found live =>
      obtain before | ⟨rfl, -⟩ := moved rfl
      · exact .inl before
      · exact .inr (.inl rfl)
  | @currentOpen p' id' kind at_ next fresh =>
      obtain before | ⟨rfl, same⟩ := moved rfl
      · exact .inl before
      · cases same
        exact .inr (.inr ⟨kind, at_, rfl, fresh⟩)
  | _ =>
      obtain before | ⟨-, same⟩ := moved rfl
      · exact .inl before
      · cases same

theorem mem_handing {handed : List (Nat × Nat)} {e : Event} {p id : Nat}
    (mem : (p, id) ∈ handing handed e) : (p, id) ∈ handed ∨ e = .handedOut p id := by
  cases e with
  | ran p' statement => exact .inl mem
  | left p' => exact .inl mem
  | handedOut p' id' =>
      rcases List.mem_cons.1 mem with same | mem
      · cases same
        exact .inr rfl
      · exact .inl mem

theorem there_of_step {s t : Shared} {e : Event} (st : Step s e t) {id : Nat}
    (there : rowOf id s.rows ≠ none) : rowOf id t.rows ≠ none := by
  obtain ⟨r, found⟩ := Option.ne_none_iff_exists'.1 there
  rw [step_rows st, Statement.rowOf_apply found]
  exact Option.some_ne_none _

/-- A statement of `run.py` gives a pass no run but a new one. -/
theorem taken_life {e : Event} {s : Shared} (st : Step b.shared e s)
    (other : calls e.process → e ≠ .ran e.process .select) {p id : Nat}
    (taken : Taken calls { b with shared := s, handed := handing b.handed e } p id) :
    Taken calls b p id ∨
      ∃ kind at_, e = .ran p (.insert id kind at_) ∧ rowOf id b.shared.rows = none := by
  obtain ⟨call, mem | phase⟩ := taken
  · rcases mem_handing mem with mem | rfl
    · exact .inl ⟨call, .inl mem⟩
    · cases st with
      | handOut next => exact .inl ⟨call, .inr next⟩
  · rcases returning_step st phase with before | rfl | fresh
    · exact .inl ⟨call, .inr before⟩
    · exact absurd rfl (other call)
    · exact .inr fresh

theorem Apart.life {e : Event} {s : Shared} (apart : Apart calls b) (st : Step b.shared e s)
    (other : calls e.process → e ≠ .ran e.process .select) :
    Apart calls { b with shared := s, handed := handing b.handed e } := by
  refine ⟨apart.reached.step st, ?_, ?_, ?_⟩
  · intro p q id mine yours
    rcases taken_life st other mine with mine | ⟨kind, at_, is, fresh⟩
    · rcases taken_life st other yours with yours | ⟨-, -, -, fresh⟩
      · exact apart.one p q id mine yours
      · exact absurd fresh (apart.there p id mine)
    · rcases taken_life st other yours with yours | ⟨kind', at', is', -⟩
      · exact absurd fresh (apart.there q id yours)
      · cases is.symm.trans is'
        rfl
  · intro p id taken
    rcases taken_life st other taken with taken | ⟨kind, at_, is, fresh⟩
    · exact there_of_step st (apart.there p id taken)
    · obtain ⟨r, found, -⟩ := running_of_insert fresh kind at_
      show rowOf id s.rows ≠ none
      rw [step_rows st, is]
      exact Option.ne_none_iff_exists'.2 ⟨r, found⟩
  · intro p id filed
    obtain ⟨call, held⟩ := apart.filed p id filed
    refine ⟨call, ?_⟩
    cases e with
    | ran p' statement => exact held
    | left p' => exact held
    | handedOut p' id' => exact List.mem_cons_of_mem _ held

/-- A pass that asks for a run gets one that is on file, and nobody else's. -/
theorem Apart.asks {p : Nat} (apart : Apart calls b) (at_ : Int) (call : calls p)
    (idle : b.shared.phase p = .idle) (alone : Alone calls b (.asks p at_)) :
    Apart calls { b with shared := asked b.shared p at_ } := by
  have st := asked_step at_ idle
  have taken_ {q id : Nat} (taken : Taken calls { b with shared := asked b.shared p at_ } q id) :
      Taken calls b q id ∨ (q = p ∧ ∃ r, b.shared.runs.liveRun .scan = some r ∧
        at_ - Engagement.lastSeen r ≤ idleCloseUs ∧ r.id = id) := by
    obtain ⟨callQ, mem | phase⟩ := taken
    · exact .inl ⟨callQ, .inl mem⟩
    have moved : (asked b.shared p at_).phase q = .returning id := phase
    rw [asked, Shared.ran] at moved
    dsimp only at moved
    rw [Function.update_apply] at moved
    split at moved
    next same =>
      refine .inr ⟨same, ?_⟩
      cases found : b.shared.runs.liveRun .scan with
      | none =>
          rw [found] at moved
          cases moved
      | some r =>
          rw [found, Option.elim_some] at moved
          split at moved
          next live =>
            cases moved
            exact ⟨r, rfl, live, rfl⟩
          next => cases moved
    next => exact .inl ⟨callQ, .inr moved⟩
  refine ⟨apart.reached.step st, ?_, ?_, apart.filed⟩
  · intro x y id mine yours
    rcases taken_ mine with had | ⟨rfl, r, found, live, rfl⟩
    · rcases taken_ yours with had' | ⟨rfl, r, found, live, rfl⟩
      · exact apart.one x y id had had'
      · exact alone _ _ r rfl found live x had
    · rcases taken_ yours with had' | ⟨rfl, -⟩
      · exact (alone _ _ r rfl found live y had').symm
      · rfl
  · intro q id taken
    rcases taken_ taken with taken | ⟨-, r, found, -, rfl⟩
    · exact there_of_step st (apart.there q id taken)
    · obtain ⟨row, there, -⟩ := running_of_liveRun (ids_nodup apart.reached) found
      exact there_of_step st (Option.ne_none_iff_exists'.2 ⟨row, there⟩)

theorem Apart.step (apart : Apart calls b) (st : PassStep calls b a b') (alone : Alone calls b a) :
    Apart calls b' := by
  cases st with
  | life st other => exact apart.life st other
  | asks at_ call idle => exact apart.asks at_ call idle alone
  | @opens p row call held =>
      refine ⟨apart.reached, apart.one, apart.there, ?_⟩
      rintro q id (⟨row', mem, rfl⟩ | ⟨o, mem, rfl⟩)
      · rcases List.mem_append.1 mem with mem | mem
        · exact apart.filed q row'.run (.inl ⟨row', mem, rfl⟩)
        · cases List.mem_singleton.1 mem
          exact ⟨call, held⟩
      · exact apart.filed q o.run (.inr ⟨o, mem, rfl⟩)
  | @observes p o call held =>
      refine ⟨apart.reached, apart.one, apart.there, ?_⟩
      rintro q id (⟨row, mem, rfl⟩ | ⟨o', mem, rfl⟩)
      · exact apart.filed q row.run (.inl ⟨row, mem, rfl⟩)
      · rcases List.mem_append.1 mem with mem | mem
        · exact apart.filed q o'.run (.inr ⟨o', (List.mem_filter.1 mem).1, rfl⟩)
        · cases List.mem_singleton.1 mem
          exact ⟨call, held⟩

theorem apart_start : Apart calls ⟨⟨[], fun _ => .idle⟩, [], [], []⟩ := by
  refine ⟨.init rfl, ?_, ?_, ?_⟩
  · rintro p q id ⟨-, mem | phase⟩ -
    · cases mem
    · cases phase
  · rintro p id ⟨-, mem | phase⟩
    · cases mem
    · cases phase
  · rintro p id (⟨row, mem, -⟩ | ⟨o, mem, -⟩)
    · cases mem
    · cases mem

theorem apart_along {past : List PassEvent}
    (run : (passes calls).Along (fun _ b a _ => Alone calls b a) past b) : Apart calls b := by
  induction run with
  | start init => exact (show _ = _ from init) ▸ apart_start
  | step _ st alone ih => exact ih.step st alone

/-- As long as no pass comes to a live run that another was handed, no two file under one run, and
an observation stays until the pass that made it makes another. -/
theorem passes_isolated {past : List PassEvent}
    (run : (passes calls).Along (fun _ b a _ => Alone calls b a) past b) :
    Isolated b ∧ (passes calls).Along (fun _ b a b' => Survives b a b') past b := by
  refine ⟨(apart_along run).isolated, ?_⟩
  induction run with
  | start init => exact .start init
  | step before st alone ih => exact .step ih st ((apart_along before).survives st)

/-! ## Two passes inside a quarter of an hour -/

/-- The processes 0 and 1 are calls of `scan.run`. -/
def twoCalls (p : Nat) : Prop := p < 2

def seenOpen : Observation := ⟨"f", 0, true, none, none, none⟩

def seenGone : Observation := ⟨"f", 0, false, none, none, none⟩

def noPass : Passes := ⟨newDatabase, [], [], []⟩

def asking : Passes := { noPass with shared := asked newDatabase 0 0 }

def opening : Passes :=
  { asking with shared := asking.shared.ran 0 (.insert 0 .scan 0) (.returning 0) }

def holding : Passes := { opening with shared := opening.shared.at_ 0 .idle, handed := [(0, 0)] }

/-- The first call has filed its observation. -/
def answered : Passes := { holding with observations := [(0, seenOpen)] }

def firstPass : List PassEvent :=
  [.observes 0 seenOpen, .life (.handedOut 0 0), .life (.ran 0 (.insert 0 .scan 0)), .asks 0 0]

theorem alone_unasked {e : PassEvent} (unasked : ∀ p at_, e ≠ .asks p at_) :
    Alone calls b e :=
  fun p at_ _ is => absurd is (unasked p at_)

theorem firstPass_along :
    (passes twoCalls).Along (fun _ b a _ => Alone twoCalls b a) firstPass answered := by
  have call : twoCalls 0 := Nat.zero_lt_succ 1
  have start : (passes twoCalls).Along (fun _ b a _ => Alone twoCalls b a) [] noPass := .start rfl
  have asks := start.step (.asks 0 call rfl) (by
    intro p at_ r is found
    cases found)
  have opens : (passes twoCalls).Along _ _ opening :=
    asks.step (.life (.currentOpen rfl rfl) fun _ => nofun) (alone_unasked fun _ _ => nofun)
  have holds : (passes twoCalls).Along _ _ holding :=
    opens.step (.life (.handOut rfl) fun _ => nofun) (alone_unasked fun _ _ => nofun)
  exact holds.step (.observes call List.mem_cons_self) (alone_unasked fun _ _ => nofun)

theorem firstPass_isolated : Isolated answered ∧
    (passes twoCalls).Along (fun _ b a b' => Survives b a b') firstPass answered :=
  passes_isolated firstPass_along

/-- The second call asks while the run of the first is live, and is handed it. -/
def askingAgain : Passes := { answered with shared := asked answered.shared 1 1 }

def sharing : Passes :=
  { askingAgain with shared := askingAgain.shared.at_ 1 .idle, handed := [(1, 0), (0, 0)] }

def overwritten : Passes := { sharing with observations := [(1, seenGone)] }

/-- Both calls file under the one run, and the answer of the first is gone. -/
theorem second_pass_overwrites :
    (passes twoCalls).History (.life (.handedOut 1 0) :: .asks 1 1 :: firstPass) sharing ∧
      (passes twoCalls).step sharing (.observes 1 seenGone) overwritten ∧
      (0, seenOpen) ∈ sharing.observations ∧
      ¬ Survives sharing (.observes 1 seenGone) overwritten := by
  have call : twoCalls 1 := Nat.lt_succ_self 1
  have asks : (passes twoCalls).History _ askingAgain :=
    firstPass_along.history.step (.asks 1 call rfl)
  have shares : (passes twoCalls).History _ sharing :=
    asks.step (.life (.handOut rfl) fun _ => nofun)
  refine ⟨shares, .observes call List.mem_cons_self, List.mem_cons_self, fun survives => ?_⟩
  rcases survives 0 seenOpen List.mem_cons_self with mem | ⟨o, is⟩
  · cases List.mem_singleton.1 mem
  · cases is

end Hx.Store.Beside
