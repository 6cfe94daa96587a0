import Hx.Tools.InFlight

/-!
# What was sent is on record

Over any interleaving: a request that came back is in exactly one exchange row, the row
names a run that was running when the request went out, and that run counts it once.
The code keeps this on exactly the runs in which every request goes out while its call
holds a running run and nothing fails between the answer and the commit: `runId` may be
`none` or name a run another process has closed, and neither stops the send.
-/

namespace Hx.Tools

open Hx.Library

/-! ## Rows of answered requests -/

/-- The rows that answer a request. -/
def rowsOf (e : Engagement) (request : Nat) : List Exchange :=
  e.exchanges.filter (·.request = some request)

/-- One row answers the request. It names the run the call held, and the counter of
this run is the number of rows that name it. -/
def OnRecord (e : Engagement) (i : Issue) : Prop :=
  ∃ r ∈ e.runs, i.held = some r.id ∧
    rowsOf e i.request = [⟨some i.request, some r.id⟩] ∧
    r.requestsIssued = (e.exchanges.filter (·.runId = some r.id)).length

/-- Every request went out under a running run, and one that was answered is on record
once its call is done with it. -/
structure IssuedRecorded (e : Engagement) : Prop where
  running : ∀ i ∈ e.wire, i.running = true
  onRecord : ∀ i ∈ e.wire, i.request ∈ e.replies → ¬ Pending e i.request → OnRecord e i

/-- A request goes out only while its call holds a running run, and nothing between
its answer and the commit fails: the row passes the guards of `record_exchange`. -/
def Sound (e : Engagement) : Event → Prop
  | .issued c => ∃ id left, (e.context c).phase = .holding (some id) left ∧
      isRunning e.runs id = true
  | .recorded c fault => fault = false ∧ ∃ request held reply left,
      (e.context c).phase = .answered request held reply left ∧ recordable reply = true
  | _ => True

/-- `IssuedRecorded` without what the ledger says anyway. -/
structure Rows (e : Engagement) : Prop where
  running : ∀ i ∈ e.wire, i.running = true
  row : ∀ i ∈ e.wire, i.request ∈ e.replies → ¬ Pending e i.request →
    rowsOf e i.request = [⟨some i.request, i.held⟩]

theorem issuedRecorded_iff_rows {e : Engagement} (ledger : Ledger e.runs e.exchanges e.nextRun)
    (flight : Flight e) : IssuedRecorded e ↔ Rows e := by
  constructor
  · intro h
    refine ⟨h.running, ?_⟩
    intro i sent replied settled
    obtain ⟨r, _, held, row, _⟩ := h.onRecord i sent replied settled
    rw [held]
    exact row
  · intro h
    refine ⟨h.running, ?_⟩
    intro i sent replied settled
    obtain ⟨id, held, known⟩ := flight.onFile i sent (h.running i sent)
    obtain ⟨r, mem, rfl⟩ := List.mem_map.1 known
    have row := h.row i sent replied settled
    rw [held] at row
    exact ⟨r, mem, held, row, ledger.counted r mem⟩

/-- A step that puts nothing on the wire, hears nothing, adds no row for a request and
lets no answered request go. -/
theorem rows_congr {e e' : Engagement} (wire : e'.wire = e.wire)
    (replies : e'.replies = e.replies) (rows : ∀ q, rowsOf e' q = rowsOf e q)
    (pending : ∀ q ∈ e.replies, Pending e' q ↔ Pending e q) : Rows e' ↔ Rows e := by
  constructor
  · intro h
    refine ⟨wire ▸ h.running, ?_⟩
    intro i sent replied settled
    rw [← rows]
    exact h.row i (wire ▸ sent) (replies ▸ replied) fun p => settled ((pending _ replied).1 p)
  · intro h
    refine ⟨wire ▸ h.running, ?_⟩
    intro i sent replied settled
    rw [rows]
    rw [replies] at replied
    exact h.row i (wire ▸ sent) replied fun p => settled ((pending _ replied).2 p)

theorem pending_setContext {e e' : Engagement} {c q : Nat} {ctx : ToolContext}
    (context : e'.context = (e.setContext c ctx).context)
    (same : ctx.phase.request = some q ↔ (e.context c).phase.request = some q) :
    Pending e' q ↔ Pending e q := by
  apply exists_congr
  intro d
  rw [context]
  by_cases here : d = c
  · subst here
    rw [setContext_self]
    exact same
  · rw [setContext_of_ne here]

theorem pending_setPhase {e e' : Engagement} {c q : Nat} {p : Phase}
    (same : e'.context = e.context)
    (phase : p.request = some q ↔ (e.context c).phase.request = some q) :
    Pending (e'.setPhase c p) q ↔ Pending e q := by
  apply pending_setContext (c := c)
  · rw [Engagement.setPhase, Engagement.setContext, same]
    exact rfl
  · exact phase

/-- A context with no request out moves on without one. -/
theorem rows_setContext {e e' : Engagement} {c : Nat} {ctx : ToolContext}
    (context : e'.context = (e.setContext c ctx).context) (wire : e'.wire = e.wire)
    (replies : e'.replies = e.replies) (rows : e'.exchanges = e.exchanges)
    (before : (e.context c).phase.request = none) (after : ctx.phase.request = none) :
    Rows e' ↔ Rows e := by
  apply rows_congr wire replies
  · intro q
    rw [rowsOf, rows, rowsOf]
  · intro q _
    apply pending_setContext context
    rw [before, after]

theorem rowsOf_append {rows : List Exchange} {x : Exchange} {q : Nat}
    (other : x.request ≠ some q) :
    (rows ++ [x]).filter (·.request = some q) = rows.filter (·.request = some q) := by
  rw [List.filter_append]
  have none_ : [x].filter (·.request = some q) = [] := by
    rw [List.filter_eq_nil_iff]
    intro y mem names
    rw [List.mem_singleton.1 mem] at names
    exact other (of_decide_eq_true names)
  rw [none_, List.append_nil]

theorem not_pending_of_quiet {e : Engagement} {c q : Nat} (flight : Flight e)
    (owns : (e.context c).phase.request = some q) {e' : Engagement} {ctx : ToolContext}
    (context : e'.context = (e.setContext c ctx).context) (after : ctx.phase.request = none) :
    ¬ Pending e' q := by
  rintro ⟨d, carries⟩
  rw [context] at carries
  by_cases here : d = c
  · subst here
    rw [setContext_self, after] at carries
    contradiction
  · rw [setContext_of_ne here] at carries
    exact here (flight.alone d c q carries owns)

theorem pending_of_owned {e : Engagement} {c q : Nat}
    (owns : (e.context c).phase.request = some q) : Pending e q := ⟨c, owns⟩

/-- A request leaves the table of the call that owned it; the others stay. -/
theorem pending_dropped {e : Engagement} {c q p : Nat}
    (owns : (e.context c).phase.request = some q) {e' : Engagement} {ctx : ToolContext}
    (context : e'.context = (e.setContext c ctx).context) (after : ctx.phase.request = none)
    (other : p ≠ q) : Pending e' p ↔ Pending e p := by
  apply pending_setContext context
  rw [after, owns]
  constructor
  · exact nofun
  · intro same
    exact absurd (Option.some.inj same).symm other

section Steps

variable {notNull : Bool} {e : Engagement} {c request left : Nat} {held : Option Nat}
  {reply : Reply}

theorem rows_issued (flight : Flight e) (at_ : (e.context c).phase = .holding held left) :
    Rows ((e.send held).setPhase c (.inFlight e.nextRequest held left)) ↔
      Rows e ∧ held.any (isRunning e.runs) = true := by
  have pending : ∀ q ∈ e.replies, Pending ((e.send held).setPhase c
      (.inFlight e.nextRequest held left)) q ↔ Pending e q := by
    intro q heard
    apply pending_setPhase (e := e) rfl
    rw [at_]
    constructor
    · intro same
      exact absurd (Option.some.inj same) (Nat.ne_of_gt (flight.replies q heard))
    · exact nofun
  constructor
  · intro h
    refine ⟨⟨?_, ?_⟩, ?_⟩
    · exact fun i sent => h.running i (List.mem_append_left _ sent)
    · intro i sent replied settled
      exact h.row i (List.mem_append_left _ sent) replied
        fun p => settled ((pending _ replied).1 p)
    · exact h.running _ (List.mem_append_right _ (List.mem_singleton_self _))
  · rintro ⟨h, live⟩
    refine ⟨?_, ?_⟩
    · intro i sent
      rcases List.mem_append.1 sent with old | new
      · exact h.running i old
      · rw [List.mem_singleton.1 new]
        exact live
    · intro i sent replied settled
      rcases List.mem_append.1 sent with old | new
      · exact h.row i old replied fun p => settled ((pending _ replied).2 p)
      · rw [List.mem_singleton.1 new] at replied
        exact absurd (flight.replies _ replied) (Nat.lt_irrefl _)

theorem rows_answered (at_ : (e.context c).phase = .inFlight request held left) :
    Rows ({ e with replies := e.replies ++ [request] }.setPhase c
      (.answered request held reply left)) ↔ Rows e := by
  have pending : ∀ q, Pending ({ e with replies := e.replies ++ [request] }.setPhase c
      (.answered request held reply left)) q ↔ Pending e q := by
    intro q
    apply pending_setPhase (e := e) rfl
    rw [at_]
    exact Iff.rfl
  constructor
  · intro h
    refine ⟨h.running, ?_⟩
    intro i sent replied settled
    exact h.row i sent (List.mem_append_left _ replied) fun p => settled ((pending _).1 p)
  · intro h
    refine ⟨h.running, ?_⟩
    intro i sent replied settled
    rcases List.mem_append.1 replied with old | new
    · exact h.row i sent old fun p => settled ((pending _).2 p)
    · apply absurd _ settled
      rw [pending, List.mem_singleton.1 new]
      exact ⟨c, by rw [at_]; rfl⟩

theorem rows_recorded (flight : Flight e)
    (at_ : (e.context c).phase = .answered request held reply left) :
    Rows ((e.record ⟨some request, held⟩).setPhase c (.between left)) ↔ Rows e := by
  have owns : (e.context c).phase.request = some request := by
    rw [at_]
    rfl
  have fresh : rowsOf e request = [] := by
    rw [rowsOf, List.filter_eq_nil_iff]
    intro x mem names
    exact flight.unrecorded c request owns x mem (of_decide_eq_true names)
  have others : ∀ q, q ≠ request →
      rowsOf ((e.record ⟨some request, held⟩).setPhase c (.between left)) q = rowsOf e q := by
    intro q other
    apply rowsOf_append
    intro same
    exact other (Option.some.inj same).symm
  have pending : ∀ q, q ≠ request → (Pending ((e.record ⟨some request, held⟩).setPhase c
      (.between left)) q ↔ Pending e q) := fun q => pending_dropped owns rfl rfl
  constructor
  · intro h
    refine ⟨h.running, ?_⟩
    intro i sent replied settled
    have other : i.request ≠ request := by
      intro same
      exact settled (same ▸ pending_of_owned owns)
    rw [← others _ other]
    exact h.row i sent replied fun p => settled ((pending _ other).1 p)
  · intro h
    refine ⟨h.running, ?_⟩
    intro i sent replied settled
    by_cases same : i.request = request
    · obtain ⟨j, mine, number, holds⟩ := flight.owned c request held (by rw [at_]; rfl)
      have one := flight.unique sent mine (same.trans number.symm)
      rw [same, one, holds]
      change (e.exchanges ++ [_]).filter _ = _
      rw [List.filter_append]
      change rowsOf e request ++ _ = _
      rw [fresh, List.nil_append, List.filter_singleton]
      simp
    · rw [others _ same]
      exact h.row i sent replied fun p => settled ((pending _ same).2 p)

/-- A call that dies between the answer and the commit leaves a request without a row. -/
theorem not_rows_lost (flight : Flight e)
    (at_ : (e.context c).phase = .answered request held reply left) :
    ¬ Rows (e.setPhase c .idle) := by
  intro h
  have owns : (e.context c).phase.request = some request := by
    rw [at_]
    rfl
  obtain ⟨i, sent, rfl, _⟩ := flight.owned c request held (by rw [at_]; rfl)
  have row := h.row i sent (flight.heard c _ _ _ _ at_)
    (not_pending_of_quiet flight owns rfl rfl)
  have mem : (⟨some i.request, i.held⟩ : Exchange) ∈ rowsOf e i.request := by
    change rowsOf e i.request = _ at row
    rw [row]
    exact List.mem_singleton_self _
  exact flight.unrecorded c _ owns _ (List.mem_filter.1 mem).1 rfl

end Steps

/-- What one step does to the rows: they stay right exactly if they were and the step
is a sound one. -/
theorem rows_step {notNull : Bool} {e e' : Engagement} {a : Event}
    (flight : Flight e) (st : Step notNull e a e') : Rows e' ↔ Rows e ∧ Sound e a := by
  have silent : ∀ {p : Phase}, p.request = none → ∀ {d : Nat},
      (e.context d).phase = p → (e.context d).phase.request = none := by
    intro p none_ d at_
    rw [at_]
    exact none_
  cases st with
  | openElsewhere kind =>
      apply Iff.trans _ (iff_self_and.2 fun _ => trivial)
      exact rows_congr rfl rfl (fun _ => rfl) fun _ _ => Iff.rfl
  | closeElsewhere id closes =>
      apply Iff.trans _ (iff_self_and.2 fun _ => trivial)
      exact rows_congr rfl rfl (fun _ => rfl) fun _ _ => Iff.rfl
  | captureElsewhere live =>
      apply Iff.trans _ (iff_self_and.2 fun _ => trivial)
      exact rows_congr rfl rfl (fun q => rowsOf_append nofun) fun q _ => Iff.rfl
  | startAsked idle free =>
      apply Iff.trans _ (iff_self_and.2 fun _ => trivial)
      exact rows_setContext rfl rfl rfl rfl (silent rfl idle) rfl
  | startOpened live at_ =>
      apply Iff.trans _ (iff_self_and.2 fun _ => trivial)
      exact rows_setContext rfl rfl rfl rfl (silent rfl at_) rfl
  | finishAsked idle found =>
      apply Iff.trans _ (iff_self_and.2 fun _ => trivial)
      exact rows_setContext rfl rfl rfl rfl (silent rfl idle) rfl
  | finishClosed at_ said =>
      apply Iff.trans _ (iff_self_and.2 fun _ => trivial)
      exact rows_setContext rfl rfl rfl rfl (silent rfl at_) rfl
  | sendAsked requests idle session =>
      apply Iff.trans _ (iff_self_and.2 fun _ => trivial)
      exact rows_setContext rfl rfl rfl rfl (silent rfl idle) rfl
  | resolved at_ =>
      apply Iff.trans _ (iff_self_and.2 fun _ => trivial)
      exact rows_setContext rfl rfl rfl rfl (silent rfl at_) rfl
  | @issued c left held at_ =>
      rw [rows_issued flight at_]
      apply and_congr_right'
      constructor
      · intro live
        cases held with
        | none => contradiction
        | some id => exact ⟨id, left, at_, live⟩
      · rintro ⟨id, left', holds, live⟩
        rw [at_] at holds
        obtain ⟨rfl, _⟩ := Phase.holding.inj holds
        exact live
  | @refused c request left held at_ =>
      apply Iff.trans _ (iff_self_and.2 fun _ => trivial)
      refine rows_congr rfl rfl (fun q => rfl) ?_
      intro q heard
      apply pending_dropped (c := c) (q := request) (by rw [at_]; rfl) rfl rfl
      rintro rfl
      exact flight.awaited c q held left at_ heard
  | answered reply at_ =>
      apply Iff.trans _ (iff_self_and.2 fun _ => trivial)
      exact rows_answered at_
  | @recorded c request left held reply at_ accepted =>
      rw [rows_recorded flight at_]
      exact iff_self_and.2 fun _ => ⟨rfl, request, held, reply, left, at_, accepted.1⟩
  | @lost c request left held reply fault at_ raises =>
      apply iff_of_false (not_rows_lost flight at_)
      rintro ⟨rows, unbroken, q, holds, r, n, phase, recordable⟩
      rw [at_] at phase
      obtain ⟨rfl, rfl, rfl, rfl⟩ := Phase.answered.inj phase
      -- a run that was running when the request went out is still a row of the table
      obtain ⟨i, sent, _, names⟩ := flight.owned c request held (by rw [at_]; rfl)
      obtain ⟨id, held_, known⟩ := flight.onFile i sent (rows.running i sent)
      obtain ⟨row, mem, number⟩ := List.mem_map.1 known
      rcases raises with broken | refused
      · rw [unbroken] at broken
        contradiction
      · apply refused
        refine ⟨recordable, ?_⟩
        rw [← names, held_]
        exact List.any_eq_true.2 ⟨row, mem, beq_iff_eq.2 number⟩
  | ended quiet =>
      apply Iff.trans _ (iff_self_and.2 fun _ => trivial)
      exact rows_setContext rfl rfl rfl rfl quiet rfl

theorem ledger_of_history {notNull : Bool} {h : List Event} {e : Engagement}
    (run : (system notNull).History h e) : Ledger e.runs e.exchanges e.nextRun :=
  run.reachable.invariant (fun _ => Starts.ledger) fun _ _ _ => ledger_step

theorem flight_of_history {notNull : Bool} {h : List Event} {e : Engagement}
    (run : (system notNull).History h e) : Flight e :=
  run.reachable.invariant (fun _ => Flight.start) fun _ _ _ => Flight.step

theorem rows_of_starts {e : Engagement} (start : Starts e) : Rows e := by
  constructor
  · rw [start.quiet.1]
    exact nofun
  · rw [start.quiet.1]
    exact nofun

/-- Every interleaving of tool calls and other processes: what was issued is recorded
under a run that was running exactly if every step of the run was sound, whether or not
`exchange.run_id` may be null. -/
theorem issuedRecorded_iff_sound {notNull : Bool} {h : List Event} {e : Engagement}
    (run : (system notNull).History h e) :
    IssuedRecorded e ↔ ((system notNull).restrict Sound).History h e := by
  rw [issuedRecorded_iff_rows (ledger_of_history run) (flight_of_history run)]
  constructor
  · intro rows
    induction run with
    | start hs => exact .start hs
    | step past st ih =>
        obtain ⟨before, sound⟩ := (rows_step (flight_of_history past) st).1 rows
        exact (ih before).step ⟨st, sound⟩
  · intro restricted
    induction restricted with
    | start hs => exact rows_of_starts hs
    | step past st ih =>
        have before := past.of_restrict
        exact (rows_step (flight_of_history before) st.1).2 ⟨ih before, st.2⟩

/-! ## Two runs -/

/-- A fresh engagement: no run, every context with a stack and nothing bound. -/
def blank : Engagement :=
  ⟨[], [], fun _ => ⟨true, none, none, none, .idle⟩, 0, 0, [], []⟩

theorem starts_blank : Starts blank where
  contexts := fun _ => rfl
  ledger := ⟨List.nodup_nil, nofun, nofun, nofun⟩
  observed := nofun
  quiet := ⟨rfl, rfl⟩

theorem issuedRecorded_of_one_send : ∃ h e, (system false).History h e ∧
    e.wire = [⟨0, some 0, true⟩] ∧ IssuedRecorded e := by
  have start : ((system false).restrict Sound).History [] blank := .start starts_blank
  have asked := start.step (a := Event.startAsked 0 .manual)
    ⟨.startAsked rfl (by decide), trivial⟩
  have opened := asked.step (a := Event.startOpened 0 true) ⟨.startOpened true rfl, trivial⟩
  have sending := opened.step (a := Event.sendAsked 0 1) ⟨.sendAsked 1 rfl rfl, trivial⟩
  have resolved := sending.step (a := Event.resolved 0) ⟨.resolved rfl, trivial⟩
  have issued := resolved.step (a := Event.issued 0) ⟨.issued rfl, 0, 0, rfl, rfl⟩
  have answered := issued.step (a := Event.answered 0 ⟨some 200, "ok"⟩) ⟨.answered _ rfl, trivial⟩
  have recorded := answered.step (a := Event.recorded 0 false)
    ⟨.recorded rfl ⟨by decide, by decide⟩, rfl, 0, some 0, _, 0, rfl, by decide⟩
  exact ⟨_, _, recorded.of_restrict, rfl,
    (issuedRecorded_iff_sound recorded.of_restrict).2 recorded⟩

/-- A context starts a manual run with a session and a browse run, another process opens
a crawl, and the browse run is finished: the session is still there, the binding is
gone, and two runs are open. The next `http.send` goes out under no run. -/
theorem exists_send_under_no_run (notNull : Bool) : ∃ h e, (system notNull).History h e ∧
    e.wire = [⟨0, none, false⟩] ∧ e.replies = [0] ∧ e.exchanges =
      (if notNull then [] else [⟨some 0, none⟩]) ∧ ¬ IssuedRecorded e := by
  have start : (system notNull).History [] blank := .start starts_blank
  have manual := (start.step (a := Event.startAsked 0 .manual)
    (.startAsked rfl (by decide))).step (a := Event.startOpened 0 true) (.startOpened true rfl)
  have browse := (manual.step (a := Event.startAsked 0 .browse)
    (.startAsked rfl (by decide))).step (a := Event.startOpened 0 false) (.startOpened false rfl)
  have crawl := browse.step (a := Event.openElsewhere .crawl) (.openElsewhere _)
  have finished := (crawl.step (a := Event.finishAsked 0 none) (.finishAsked rfl rfl)).step
    (a := Event.finishClosed 0 .completed) (.finishClosed rfl (by decide))
  have resolved := (finished.step (a := Event.sendAsked 0 1) (.sendAsked 1 rfl rfl)).step
    (a := Event.resolved 0) (.resolved rfl)
  have answered := (resolved.step (a := Event.issued 0) (.issued rfl)).step
    (a := Event.answered 0 ⟨some 200, "ok"⟩) (.answered _ rfl)
  have lost : ∀ {e}, e.wire = [⟨0, none, false⟩] → ¬ IssuedRecorded e := by
    intro e wire h
    have := h.running ⟨0, none, false⟩ (wire ▸ List.mem_singleton_self _)
    contradiction
  cases notNull with
  | true =>
      have last := answered.step (a := Event.recorded 0 false) (.lost false rfl (.inr (by decide)))
      exact ⟨_, _, last, rfl, rfl, rfl, lost rfl⟩
  | false =>
      have last := answered.step (a := Event.recorded 0 false) (.recorded rfl (by decide))
      exact ⟨_, _, last, rfl, rfl, rfl, lost rfl⟩

/-- Its row names no run, or cannot be written where the column has to name one. -/
theorem send_under_no_run :
    (∃ h e, (system false).History h e ∧ e.wire = [⟨0, none, false⟩] ∧ e.replies = [0] ∧
      e.exchanges = [⟨some 0, none⟩] ∧ ¬ IssuedRecorded e) ∧
    (∃ h e, (system true).History h e ∧ e.wire = [⟨0, none, false⟩] ∧ e.replies = [0] ∧
      e.exchanges = [] ∧ ¬ IssuedRecorded e) :=
  ⟨exists_send_under_no_run false, exists_send_under_no_run true⟩

end Hx.Tools
