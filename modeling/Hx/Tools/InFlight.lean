import Hx.Tools.Dispatch
import Mathlib.Data.List.Nodup

/-!
# Counters and requests in flight

What every interleaving keeps, whatever the calls do: a run counts the rows that name
it, and a request belongs to one call until it is recorded, refused or lost.
-/

namespace Hx.Tools

open Hx.Library

/-! ## Runs and their counters -/

section Ledger

variable {runs : List Run} {rows : List Exchange} {nextRun : Nat}

theorem Ledger.openRun (h : Ledger runs rows nextRun) (kind : Kind) :
    Ledger (runs ++ [⟨nextRun, kind, .running, 0⟩]) rows (nextRun + 1) where
  distinct := by
    rw [List.map_append, List.nodup_append]
    refine ⟨h.distinct, List.nodup_singleton _, ?_⟩
    intro id old next new
    obtain ⟨r, mem, rfl⟩ := List.mem_map.1 old
    rw [List.map_singleton, List.mem_singleton] at new
    have := h.fresh r mem
    simp only at new
    omega
  fresh := by
    intro r mem
    rcases List.mem_append.1 mem with old | new
    · exact Nat.lt_succ_of_lt (h.fresh r old)
    · rw [List.mem_singleton.1 new]
      exact Nat.lt_succ_self _
  named := fun x mem id names => Nat.lt_succ_of_lt (h.named x mem id names)
  counted := by
    intro r mem
    rcases List.mem_append.1 mem with old | new
    · exact h.counted r old
    · rw [List.mem_singleton.1 new]
      symm
      rw [List.length_eq_zero_iff, List.filter_eq_nil_iff]
      intro x row names
      exact absurd (h.named x row nextRun (of_decide_eq_true names)) (Nat.lt_irrefl _)

theorem map_id_closeRun (id : Nat) (status : Status) (runs : List Run) :
    (closeRun id status runs).map Run.id = runs.map Run.id := by
  rw [closeRun, List.map_map]
  apply List.map_congr_left
  intro r _
  simp only [Function.comp]
  split <;> rfl

theorem map_id_countRequest (id : Option Nat) (runs : List Run) :
    (countRequest id runs).map Run.id = runs.map Run.id := by
  rw [countRequest, List.map_map]
  apply List.map_congr_left
  intro r _
  simp only [Function.comp]
  split <;> rfl

theorem lt_of_ids {runs runs' : List Run} (same : runs'.map Run.id = runs.map Run.id)
    (fresh : ∀ r ∈ runs, r.id < nextRun) : ∀ r ∈ runs', r.id < nextRun := by
  intro r mem
  have known : r.id ∈ runs.map Run.id := same ▸ List.mem_map_of_mem mem
  obtain ⟨s, old, id⟩ := List.mem_map.1 known
  exact id ▸ fresh s old

theorem Ledger.closeRun (h : Ledger runs rows nextRun) (id : Nat) (status : Status) :
    Ledger (closeRun id status runs) rows nextRun where
  distinct := map_id_closeRun id status runs ▸ h.distinct
  fresh := lt_of_ids (map_id_closeRun id status runs) h.fresh
  named := h.named
  counted := by
    intro r mem
    obtain ⟨s, old, rfl⟩ := List.mem_map.1 mem
    have counted := h.counted s old
    split <;> exact counted

/-- A row and its counter are written in one transaction. -/
theorem Ledger.record (h : Ledger runs rows nextRun) (row : Exchange)
    (onFile : ∀ id, row.runId = some id → id < nextRun) :
    Ledger (countRequest row.runId runs) (rows ++ [row]) nextRun where
  distinct := map_id_countRequest row.runId runs ▸ h.distinct
  fresh := lt_of_ids (map_id_countRequest row.runId runs) h.fresh
  named := by
    intro x mem id names
    rcases List.mem_append.1 mem with old | new
    · exact h.named x old id names
    · exact onFile id (List.mem_singleton.1 new ▸ names)
  counted := by
    intro r mem
    obtain ⟨s, old, rfl⟩ := List.mem_map.1 mem
    have counted := h.counted s old
    rw [List.filter_append, List.length_append]
    by_cases names : some s.id = row.runId
    · rw [if_pos names]
      have one : [row].filter (·.runId = some s.id) = [row] := by
        rw [List.filter_eq_self]
        intro x mem
        rw [List.mem_singleton.1 mem]
        exact decide_eq_true names.symm
      simp only [one, List.length_singleton, counted]
    · rw [if_neg names]
      have none_ : [row].filter (·.runId = some s.id) = [] := by
        rw [List.filter_eq_nil_iff]
        intro x mem same
        rw [List.mem_singleton.1 mem] at same
        exact names (of_decide_eq_true same).symm
      simp only [none_, List.length_nil, counted, Nat.add_zero]

theorem lt_of_isRunning (h : Ledger runs rows nextRun) {id : Nat}
    (live : isRunning runs id = true) : id < nextRun := by
  obtain ⟨r, mem, found⟩ := List.any_eq_true.1 live
  rw [Bool.and_eq_true, beq_iff_eq] at found
  exact found.1 ▸ h.fresh r mem

theorem lt_of_acceptsRunId (h : Ledger runs rows nextRun) {notNull : Bool} {held : Option Nat}
    (accepted : acceptsRunId notNull runs held = true) :
    ∀ id, held = some id → id < nextRun := by
  rintro id rfl
  obtain ⟨r, mem, found⟩ := List.any_eq_true.1 accepted
  exact beq_iff_eq.1 found ▸ h.fresh r mem

end Ledger

/-- The counters hold over every interleaving. -/
theorem ledger_step {notNull : Bool} {e e' : Engagement} {a : Event}
    (h : Ledger e.runs e.exchanges e.nextRun) (st : Step notNull e a e') :
    Ledger e'.runs e'.exchanges e'.nextRun := by
  cases st with
  | openElsewhere kind => exact h.openRun kind
  | startOpened live at_ => exact h.openRun _
  | closeElsewhere id closes => exact h.closeRun id _
  | finishClosed at_ said => exact h.closeRun _ _
  | captureElsewhere live =>
      apply h.record
      rintro id ⟨⟩
      exact lt_of_isRunning h live
  | recorded at_ accepted => exact h.record _ (lt_of_acceptsRunId h accepted.2)
  | _ => exact h

/-! ## Requests in flight -/

/-- A call waits for this request or has yet to record it. -/
def Pending (e : Engagement) (request : Nat) : Prop :=
  ∃ c, (e.context c).phase.request = some request

/-- What the numbering of requests keeps. A request belongs to one call until it is
recorded, refused or lost, and has no row before; a run held while it was running is
still on file. -/
structure Flight (e : Engagement) : Prop where
  wire : ∀ i ∈ e.wire, i.request < e.nextRequest
  onFile : ∀ i ∈ e.wire, i.running = true → ∃ id, i.held = some id ∧ id ∈ e.runs.map Run.id
  distinct : (e.wire.map Issue.request).Nodup
  rows : ∀ x ∈ e.exchanges, ∀ q, x.request = some q → q < e.nextRequest
  replies : ∀ q ∈ e.replies, q < e.nextRequest
  unrecorded : ∀ c q, (e.context c).phase.request = some q → ∀ x ∈ e.exchanges, x.request ≠ some q
  owned : ∀ c q held, (e.context c).phase.carries = some (q, held) →
    ∃ i ∈ e.wire, i.request = q ∧ i.held = held
  alone : ∀ c d q, (e.context c).phase.request = some q → (e.context d).phase.request = some q →
    c = d
  awaited : ∀ c q held left, (e.context c).phase = .inFlight q held left → q ∉ e.replies
  heard : ∀ c q held reply left, (e.context c).phase = .answered q held reply left →
    q ∈ e.replies

theorem request_of_carries {p : Phase} {q : Nat} {held : Option Nat}
    (h : p.carries = some (q, held)) : p.request = some q := by
  rw [Phase.request, h]
  rfl

theorem carries_of_request {p : Phase} {q : Nat} (h : p.request = some q) :
    ∃ held, p.carries = some (q, held) := by
  obtain ⟨⟨q', held⟩, carries, rfl⟩ := Option.map_eq_some_iff.1 h
  exact ⟨held, carries⟩

theorem Flight.lt {e : Engagement} (h : Flight e) {c q : Nat}
    (carries : (e.context c).phase.request = some q) : q < e.nextRequest := by
  obtain ⟨held, carried⟩ := carries_of_request carries
  obtain ⟨i, sent, rfl, _⟩ := h.owned c q held carried
  exact h.wire i sent

/-- A step that sends nothing, hears nothing and records nothing a call waits for: every
context keeps its phase or is left with no request. -/
theorem Flight.settle {e e' : Engagement} (h : Flight e) (wire : e'.wire = e.wire)
    (replies : e'.replies = e.replies) (next : e'.nextRequest = e.nextRequest)
    (rows : ∀ x ∈ e'.exchanges, x ∈ e.exchanges ∨ x.request = none)
    (runs : ∀ id ∈ e.runs.map Run.id, id ∈ e'.runs.map Run.id)
    (phases : ∀ c, (e'.context c).phase = (e.context c).phase ∨
      (e'.context c).phase.request = none) : Flight e' := by
  have kept : ∀ c q, (e'.context c).phase.request = some q →
      (e'.context c).phase = (e.context c).phase := by
    intro c q carries
    apply (phases c).resolve_right
    rw [carries]
    exact nofun
  exact {
    wire := by rw [wire, next]; exact h.wire
    onFile := by
      rw [wire]
      intro i mem running
      obtain ⟨id, held, known⟩ := h.onFile i mem running
      exact ⟨id, held, runs id known⟩
    distinct := by rw [wire]; exact h.distinct
    rows := by
      intro x mem q request
      rcases rows x mem with old | none_
      · rw [next]
        exact h.rows x old q request
      · rw [none_] at request
        contradiction
    replies := by rw [replies, next]; exact h.replies
    unrecorded := by
      intro c q carries x mem request
      rcases rows x mem with old | none_
      · exact h.unrecorded c q (kept c q carries ▸ carries) x old request
      · rw [none_] at request
        contradiction
    owned := by
      intro c q held carries
      rw [wire]
      exact h.owned c q held (kept c q (request_of_carries carries) ▸ carries)
    alone := by
      intro c d q hc hd
      exact h.alone c d q (kept c q hc ▸ hc) (kept d q hd ▸ hd)
    awaited := by
      intro c q held left phase
      rw [replies]
      have same := kept c q (by rw [phase]; rfl)
      exact h.awaited c q held left (same ▸ phase)
    heard := by
      intro c q held reply left phase
      rw [replies]
      have same := kept c q (by rw [phase]; rfl)
      exact h.heard c q held reply left (same ▸ phase) }

theorem setContext_of_ne {e : Engagement} {c d : Nat} {ctx : ToolContext} (ne : d ≠ c) :
    (e.setContext c ctx).context d = e.context d :=
  Function.update_of_ne ne _ _

@[simp] theorem setContext_self {e : Engagement} {c : Nat} {ctx : ToolContext} :
    (e.setContext c ctx).context c = ctx :=
  Function.update_self _ _ _

/-- The phases after one context moved to a phase with no request. -/
theorem phases_setContext {e : Engagement} {c : Nat} {ctx : ToolContext}
    (none_ : ctx.phase.request = none) (d : Nat) :
    ((e.setContext c ctx).context d).phase = (e.context d).phase ∨
      ((e.setContext c ctx).context d).phase.request = none := by
  by_cases same : d = c
  · subst same
    rw [setContext_self]
    exact .inr none_
  · rw [setContext_of_ne same]
    exact .inl rfl

theorem phase_setContext {e : Engagement} {c d : Nat} {ctx : ToolContext} {p : Phase}
    (h : ((e.setContext c ctx).context d).phase = p) :
    d = c ∧ ctx.phase = p ∨ d ≠ c ∧ (e.context d).phase = p := by
  by_cases same : d = c
  · subst same
    rw [setContext_self] at h
    exact .inl ⟨rfl, h⟩
  · rw [setContext_of_ne same] at h
    exact .inr ⟨same, h⟩

theorem carries_setPhase {e : Engagement} {c d q : Nat} {held : Option Nat} {p : Phase}
    (h : ((e.setPhase c p).context d).phase.carries = some (q, held)) :
    d = c ∧ p.carries = some (q, held) ∨
      d ≠ c ∧ (e.context d).phase.carries = some (q, held) := by
  by_cases same : d = c
  · subst same
    rw [Engagement.setPhase, setContext_self] at h
    exact .inl ⟨rfl, h⟩
  · rw [Engagement.setPhase, setContext_of_ne same] at h
    exact .inr ⟨same, h⟩

theorem request_setPhase {e : Engagement} {c d q : Nat} {p : Phase}
    (h : ((e.setPhase c p).context d).phase.request = some q) :
    d = c ∧ p.request = some q ∨ d ≠ c ∧ (e.context d).phase.request = some q := by
  obtain ⟨held, carries⟩ := carries_of_request h
  rcases carries_setPhase carries with ⟨same, here⟩ | ⟨other, there⟩
  · exact .inl ⟨same, request_of_carries here⟩
  · exact .inr ⟨other, request_of_carries there⟩

/-- A new request, numbered next. -/
theorem Flight.send {e : Engagement} (h : Flight e) (c : Nat) (held : Option Nat) (left : Nat) :
    Flight ((e.send held).setPhase c (.inFlight e.nextRequest held left)) where
  wire := by
    intro i mem
    rcases List.mem_append.1 mem with old | new
    · exact Nat.lt_succ_of_lt (h.wire i old)
    · rw [List.mem_singleton.1 new]
      exact Nat.lt_succ_self _
  onFile := by
    intro i mem running
    rcases List.mem_append.1 mem with old | new
    · exact h.onFile i old running
    · rw [List.mem_singleton.1 new] at running ⊢
      cases held with
      | none => contradiction
      | some id =>
          obtain ⟨r, onFile, found⟩ := List.any_eq_true.1 running
          rw [Bool.and_eq_true, beq_iff_eq] at found
          exact ⟨id, rfl, found.1 ▸ List.mem_map_of_mem onFile⟩
  distinct := by
    change ((e.wire ++ _).map Issue.request).Nodup
    rw [List.map_append, List.nodup_append]
    refine ⟨h.distinct, List.nodup_singleton _, ?_⟩
    intro q old next new
    obtain ⟨i, mem, rfl⟩ := List.mem_map.1 old
    rw [List.map_singleton, List.mem_singleton] at new
    rw [new]
    exact Nat.ne_of_lt (h.wire i mem)
  rows := fun x mem q request => Nat.lt_succ_of_lt (h.rows x mem q request)
  replies := fun q mem => Nat.lt_succ_of_lt (h.replies q mem)
  unrecorded := by
    intro d q carries x mem request
    rcases request_setPhase carries with ⟨_, here⟩ | ⟨_, there⟩
    · have := h.rows x mem q request
      rw [← Option.some.inj here] at this
      exact Nat.lt_irrefl _ this
    · exact h.unrecorded d q there x mem request
  owned := by
    intro d q held' carries
    rcases carries_setPhase carries with ⟨_, here⟩ | ⟨_, there⟩
    · obtain ⟨rfl, rfl⟩ := Prod.mk.inj (Option.some.inj here)
      exact ⟨_, List.mem_append_right _ (List.mem_singleton_self _), rfl, rfl⟩
    · obtain ⟨i, mem, sent⟩ := h.owned d q held' there
      exact ⟨i, List.mem_append_left _ mem, sent⟩
  alone := by
    intro d d' q hd hd'
    rcases request_setPhase hd with ⟨same, here⟩ | ⟨other, there⟩ <;>
      rcases request_setPhase hd' with ⟨same', here'⟩ | ⟨other', there'⟩
    · rw [same, same']
    · have := h.lt there'
      rw [← Option.some.inj here] at this
      exact absurd this (Nat.lt_irrefl _)
    · have := h.lt there
      rw [← Option.some.inj here'] at this
      exact absurd this (Nat.lt_irrefl _)
    · exact h.alone d d' q there there'
  awaited := by
    intro d q held' left' phase heard
    rcases phase_setContext phase with ⟨_, here⟩ | ⟨_, there⟩
    · obtain ⟨rfl, _, _⟩ := Phase.inFlight.inj here
      exact Nat.lt_irrefl _ (h.replies _ heard)
    · exact h.awaited d q held' left' there heard
  heard := by
    intro d q held' reply left' phase
    rcases phase_setContext phase with ⟨_, here⟩ | ⟨_, there⟩
    · cases here
    · exact h.heard d q held' reply left' there

/-- The bridge answers the request a call waits for. -/
theorem Flight.answer {e : Engagement} (h : Flight e) {c request left : Nat} {held : Option Nat}
    (reply : Reply) (at_ : (e.context c).phase = .inFlight request held left) :
    Flight ({ e with replies := e.replies ++ [request] }.setPhase c
      (.answered request held reply left)) where
  wire := h.wire
  onFile := h.onFile
  distinct := h.distinct
  rows := h.rows
  replies := by
    intro q mem
    rcases List.mem_append.1 mem with old | new
    · exact h.replies q old
    · rw [List.mem_singleton.1 new]
      exact h.lt (c := c) (by rw [at_]; rfl)
  unrecorded := by
    intro d q carries
    rcases request_setPhase carries with ⟨_, here⟩ | ⟨_, there⟩
    · exact h.unrecorded c q (by rw [at_]; exact here)
    · exact h.unrecorded d q there
  owned := by
    intro d q held' carries
    rcases carries_setPhase carries with ⟨_, here⟩ | ⟨_, there⟩
    · exact h.owned c q held' (by rw [at_]; exact here)
    · exact h.owned d q held' there
  alone := by
    have before : ∀ d q, (({ e with replies := e.replies ++ [request] }.setPhase c
        (.answered request held reply left)).context d).phase.request = some q →
        (e.context d).phase.request = some q := by
      intro d q carries
      rcases request_setPhase carries with ⟨rfl, here⟩ | ⟨_, there⟩
      · rw [at_]
        exact here
      · exact there
    intro d d' q hd hd'
    exact h.alone d d' q (before d q hd) (before d' q hd')
  awaited := by
    intro d q held' left' phase heard
    rcases phase_setContext phase with ⟨_, here⟩ | ⟨other, there⟩
    · cases here
    · rcases List.mem_append.1 heard with old | new
      · exact h.awaited d q held' left' there old
      · rw [List.mem_singleton.1 new] at there
        exact other (h.alone d c request (by rw [there]; rfl) (by rw [at_]; rfl))
  heard := by
    intro d q held' reply' left' phase
    rcases phase_setContext phase with ⟨_, here⟩ | ⟨_, there⟩
    · obtain ⟨rfl, _, _, _⟩ := Phase.answered.inj here
      exact List.mem_append_right _ (List.mem_singleton_self _)
    · exact List.mem_append_left _ (h.heard d q held' reply' left' there)

/-- The row of a request is written by the call that owns it. -/
theorem Flight.record {e : Engagement} (h : Flight e) {c request left : Nat}
    {held : Option Nat} {reply : Reply}
    (at_ : (e.context c).phase = .answered request held reply left) :
    Flight ((e.record ⟨some request, held⟩).setPhase c (.between left)) := by
  have before : ∀ d q held', (((e.record ⟨some request, held⟩).setPhase c
      (.between left)).context d).phase.carries = some (q, held') →
      d ≠ c ∧ (e.context d).phase.carries = some (q, held') := by
    intro d q held' carries
    rcases carries_setPhase carries with ⟨_, here⟩ | there
    · cases here
    · exact there
  have asked : ∀ d q, (((e.record ⟨some request, held⟩).setPhase c
      (.between left)).context d).phase.request = some q →
      d ≠ c ∧ (e.context d).phase.request = some q := by
    intro d q carries
    obtain ⟨held', carried⟩ := carries_of_request carries
    obtain ⟨other, there⟩ := before d q held' carried
    exact ⟨other, request_of_carries there⟩
  exact {
    wire := h.wire
    onFile := by
      intro i mem running
      obtain ⟨id, names, known⟩ := h.onFile i mem running
      exact ⟨id, names, (map_id_countRequest held e.runs).symm ▸ known⟩
    distinct := h.distinct
    rows := by
      intro x mem q names
      rcases List.mem_append.1 mem with old | new
      · exact h.rows x old q names
      · rw [List.mem_singleton.1 new] at names
        exact h.lt (c := c) (by rw [at_]; exact names)
    replies := h.replies
    unrecorded := by
      intro d q carries x mem names
      obtain ⟨other, there⟩ := asked d q carries
      rcases List.mem_append.1 mem with old | new
      · exact h.unrecorded d q there x old names
      · rw [List.mem_singleton.1 new] at names
        exact other (h.alone d c q there (by rw [at_]; exact names))
    owned := fun d q held' carries => h.owned d q held' (before d q held' carries).2
    alone := fun d d' q hd hd' => h.alone d d' q (asked d q hd).2 (asked d' q hd').2
    awaited := by
      intro d q held' left' phase
      rcases phase_setContext phase with ⟨_, here⟩ | ⟨_, there⟩
      · cases here
      · exact h.awaited d q held' left' there
    heard := by
      intro d q held' reply' left' phase
      rcases phase_setContext phase with ⟨_, here⟩ | ⟨_, there⟩
      · cases here
      · exact h.heard d q held' reply' left' there }

/-- Two requests on the wire with one number are one. -/
theorem Flight.unique {e : Engagement} (h : Flight e) {i j : Issue} (hi : i ∈ e.wire)
    (hj : j ∈ e.wire) (same : i.request = j.request) : i = j :=
  List.inj_on_of_nodup_map h.distinct hi hj same

theorem Flight.start {e : Engagement} (h : Starts e) : Flight e := by
  have quiet : ∀ c, (e.context c).phase.request = none := by
    intro c
    rw [h.contexts c]
    rfl
  have silent : ∀ c q held, (e.context c).phase.carries ≠ some (q, held) := by
    intro c q held carries
    have := quiet c
    rw [request_of_carries carries] at this
    contradiction
  exact {
    wire := by rw [h.quiet.1]; exact nofun
    onFile := by rw [h.quiet.1]; exact nofun
    distinct := by rw [h.quiet.1]; exact List.nodup_nil
    rows := by
      intro x mem q request
      rw [h.observed x mem] at request
      contradiction
    replies := by rw [h.quiet.2]; exact nofun
    unrecorded := by
      intro c q request
      rw [quiet c] at request
      contradiction
    owned := fun c q held carries => absurd carries (silent c q held)
    alone := by
      intro c d q request
      rw [quiet c] at request
      contradiction
    awaited := by
      intro c q held left phase
      rw [h.contexts c] at phase
      contradiction
    heard := by
      intro c q held reply left phase
      rw [h.contexts c] at phase
      contradiction }

theorem Flight.step {notNull : Bool} {e e' : Engagement} {a : Event} (h : Flight e)
    (st : Step notNull e a e') : Flight e' := by
  have same : ∀ x ∈ e.exchanges, x ∈ e.exchanges ∨ x.request = none := fun x mem => .inl mem
  have onFile : ∀ id ∈ e.runs.map Run.id, id ∈ e.runs.map Run.id := fun id mem => mem
  have opened : ∀ kind, ∀ id ∈ e.runs.map Run.id, id ∈ (e.openRun kind).runs.map Run.id := by
    intro kind id mem
    change id ∈ (e.runs ++ _).map Run.id
    rw [List.map_append]
    exact List.mem_append_left _ mem
  have closed : ∀ id status, ∀ known ∈ e.runs.map Run.id,
      known ∈ (closeRun id status e.runs).map Run.id := by
    intro id status known mem
    rw [map_id_closeRun]
    exact mem
  have stay : ∀ c, (e.context c).phase = (e.context c).phase ∨
      (e.context c).phase.request = none := fun c => .inl rfl
  cases st with
  | openElsewhere kind => exact h.settle rfl rfl rfl same (opened kind) stay
  | closeElsewhere id closes => exact h.settle rfl rfl rfl same (closed id _) stay
  | captureElsewhere live =>
      refine h.settle rfl rfl rfl ?_ ?_ stay
      · intro x mem
        rcases List.mem_append.1 mem with old | new
        · exact .inl old
        · rw [List.mem_singleton.1 new]
          exact .inr rfl
      · intro id mem
        exact (map_id_countRequest _ e.runs).symm ▸ mem
  | startAsked idle free => exact h.settle rfl rfl rfl same onFile (phases_setContext rfl)
  | startOpened live at_ => exact h.settle rfl rfl rfl same (opened _) (phases_setContext rfl)
  | finishAsked idle found => exact h.settle rfl rfl rfl same onFile (phases_setContext rfl)
  | finishClosed at_ said =>
      exact h.settle rfl rfl rfl same (closed _ _) (phases_setContext rfl)
  | sendAsked requests idle session =>
      exact h.settle rfl rfl rfl same onFile (phases_setContext rfl)
  | resolved at_ => exact h.settle rfl rfl rfl same onFile (phases_setContext rfl)
  | issued at_ => exact h.send _ _ _
  | refused at_ => exact h.settle rfl rfl rfl same onFile (phases_setContext rfl)
  | answered reply at_ => exact h.answer reply at_
  | recorded at_ accepted => exact h.record at_
  | lost fault at_ raises => exact h.settle rfl rfl rfl same onFile (phases_setContext rfl)
  | ended quiet => exact h.settle rfl rfl rfl same onFile (phases_setContext rfl)

end Hx.Tools
