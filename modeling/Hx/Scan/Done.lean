import Hx.Scan.Loop

/-!
# What a row leaves on file

Whatever became of a row, there is one more of it, its number says who closed it, and the
rest of the store has what its work wrote. `RowDone` says this for a row that is closed,
field by field; `RowBreak` comes to at most one row that is not.
-/

namespace Hx.Scan

open Hx.Checks Hx.Library Hx.Python Hx.Store

section Work

variable {runId row : Nat} {s : Surface} {c : Check} {p : Pass} {w : Work}

/-- What a finding does not touch. -/
theorem foldl_filed {α : Type} (f : Pass → α)
    (keeps : ∀ p candidate, f (Pass.filed p runId s c candidate) = f p) (written : List Candidate)
    (p : Pass) : f (written.foldl (fun p candidate => p.filed runId s c candidate) p) = f p := by
  induction written generalizing p with
  | nil => rfl
  | cons candidate written ih => rw [List.foldl_cons, ih, keeps]

namespace Work

/-- What the row's sender issued. -/
def sent (w : Work) : Nat := (w.drove.map Prod.fst).getD 0

def refused (w : Work) : Tally := (w.drove.map Prod.snd).getD []

def offers (w : Work) (s : Surface) (c : Check) : List Offer :=
  w.verdict.elim [] fun v =>
    if v.considered = [] then [] else [⟨c.hook, s.id, c.id, s.origin, v⟩]

def events (w : Work) (row : Nat) (s : Surface) (c : Check) (generation : Option Nat) :
    List Event :=
  (w.verdict.map fun v => Event.returned row s c v w.next).toList ++
    (w.drove.map fun d => Event.probes row generation d.1 d.2).toList

/-- What the work keeps. -/
theorem apply_keeps {I : Pass → Prop}
    (filed : ∀ p candidate, I p → I (Pass.filed p runId s c candidate))
    (returned : ∀ p v next, I p → I (Pass.returned p row s c v next))
    (drove : ∀ p sent refused, I p → I (Pass.drove p row sent refused)) (start : I p) :
    I (w.apply runId row s c p) := by
  have driven : I (w.driven row p) := by
    rw [Work.driven]
    cases w.drove with
    | none => exact start
    | some d => exact drove _ _ _ start
  have accepted : I (w.accepted row s c (w.driven row p)) := by
    rw [Work.accepted]
    cases w.verdict with
    | none => exact driven
    | some v => exact returned _ _ _ driven
  rw [apply]
  generalize w.accepted row s c (w.driven row p) = p at accepted
  induction w.written generalizing p with
  | nil => exact accepted
  | cons candidate written ih => exact ih _ (filed _ _ accepted)

theorem apply_of_keeps {α : Type} (f : Pass → α)
    (filed : ∀ p candidate, f (Pass.filed p runId s c candidate) = f p)
    (returned : ∀ p v next, f (Pass.returned p row s c v next) = f p)
    (drove : ∀ p sent refused, f (Pass.drove p row sent refused) = f p) :
    f (w.apply runId row s c p) = f p :=
  apply_keeps (I := fun q => f q = f p) (fun q candidate same => (filed q candidate).trans same)
    (fun q v next same => (returned q v next).trans same)
    (fun q sent refused same => (drove q sent refused).trans same) rfl

theorem apply_checkRuns : (w.apply runId row s c p).store.checkRuns = p.store.checkRuns :=
  apply_of_keeps (fun p => p.store.checkRuns) (fun _ _ => rfl) (fun _ _ _ => rfl) fun _ _ _ => rfl

theorem apply_nextId : (w.apply runId row s c p).store.nextId = p.store.nextId :=
  apply_of_keeps (fun p => p.store.nextId) (fun _ _ => rfl) (fun _ _ _ => rfl) fun _ _ _ => rfl

theorem apply_runs : (w.apply runId row s c p).store.runs = p.store.runs :=
  apply_of_keeps (fun p => p.store.runs) (fun _ _ => rfl) (fun _ _ _ => rfl) fun _ _ _ => rfl

theorem apply_bracket : (w.apply runId row s c p).bracket = p.bracket :=
  apply_of_keeps Pass.bracket (fun _ _ => rfl) (fun _ _ _ => rfl) fun _ _ _ => rfl

/-- Of the summary, the work moves the number of findings. -/
theorem apply_summary : (w.apply runId row s c p).summary =
    { p.summary with findings := (w.apply runId row s c p).summary.findings } := by
  have kept : ({ (w.apply runId row s c p).summary with findings := 0 } : Summary) =
      { p.summary with findings := 0 } :=
    apply_of_keeps (fun p : Pass => { p.summary with findings := 0 }) (fun _ _ => rfl)
      (fun _ _ _ => rfl) fun _ _ _ => rfl
  have put := congrArg (fun m : Summary =>
    { m with findings := (w.apply runId row s c p).summary.findings }) kept
  exact put

theorem apply_offered : (w.apply runId row s c p).offered = p.offered ++ w.offers s c := by
  rw [apply, foldl_filed Pass.offered fun _ _ => rfl, accepted, offers]
  have driven : (w.driven row p).offered = p.offered := by
    rw [driven]
    cases w.drove with
    | none => rfl
    | some d => rfl
  cases w.verdict with
  | none => exact driven.trans (List.append_nil _).symm
  | some v =>
      change (if v.considered = [] then (w.driven row p).offered else _) = _
      rw [driven]
      change _ = p.offered ++ if v.considered = [] then [] else _
      split
      · exact (List.append_nil _).symm
      · rfl

theorem apply_log : (w.apply runId row s c p).log =
    w.events row s c (p.bracket.map fun b => b.resolved.generation) ++ p.log := by
  rw [apply, foldl_filed Pass.log fun _ _ => rfl, accepted, events, driven]
  cases w.verdict with
  | none =>
      cases w.drove with
      | none => rfl
      | some d => rfl
  | some v =>
      cases w.drove with
      | none => rfl
      | some d => rfl

theorem apply_sender (none_ : p.sender = none) : (w.apply runId row s c p).sender =
    w.drove.map fun d => ⟨d.1, d.2⟩ := by
  rw [apply, foldl_filed Pass.sender fun _ _ => rfl, accepted, driven]
  cases w.verdict with
  | none =>
      cases w.drove with
      | none => exact none_
      | some d => rfl
  | some v =>
      cases w.drove with
      | none => exact none_
      | some d => rfl

theorem sent_eq (none_ : p.sender = none) : (w.apply runId row s c p).sent = w.sent := by
  rw [Pass.sent, apply_sender none_, sent, Option.map_map]
  rfl

theorem refusals_eq (none_ : p.sender = none) : (w.apply runId row s c p).refusals = w.refused := by
  rw [Pass.refusals, apply_sender none_, refused, Option.map_map]
  rfl

end Work

end Work

/-! ## Invariants of a row -/

/-- Every statement of a row keeps it. -/
structure RowKeeps (runId : Nat) (s : Surface) (c : Check) (I : Pass → Prop) : Prop where
  like : ∀ p q, I p → p.Like q → I q
  opened : ∀ p, I p → I (p.opened runId s c)
  drove : ∀ p row sent refused, I p → I (p.drove row sent refused)
  returned : ∀ p row v next, I p → I (p.returned row s c v next)
  filed : ∀ p candidate, I p → I (p.filed runId s c candidate)
  skipped : ∀ p row key reason, I p → I (p.skipped row key reason)
  spent : ∀ p, I p → I p.spent
  closed : ∀ p row verdict reason, I p → I (p.closed row verdict reason)

namespace RowKeeps

variable {e : Env} {runId : Nat} {s : Surface} {c : Check} {I : Pass → Prop} {p q : Pass}

theorem worked (keeps : RowKeeps runId s c I) (holds : I p) (w : Work) (row : Nat) :
    I (w.apply runId row s c (p.opened runId s c)) :=
  Work.apply_keeps keeps.filed (fun p v next => keeps.returned p row v next)
    (fun p sent refused => keeps.drove p row sent refused) (keeps.opened p holds)

theorem ends (keeps : RowKeeps runId s c I) (holds : I p) (ends : RowEnd e runId s c p q) :
    I q := by
  cases ends with
  | skipped key reason like =>
      exact keeps.like _ _ (keeps.skipped _ _ _ _ (keeps.opened p holds)) like
  | closed w v complete like =>
      exact keeps.like _ _ (keeps.closed _ _ _ _ (keeps.spent _ (keeps.worked holds w _))) like
  | failed w verdict reason failed word like =>
      exact keeps.like _ _ (keeps.closed _ _ _ _ (keeps.spent _ (keeps.worked holds w _))) like

theorem breaks (keeps : RowKeeps runId s c I) (holds : I p) (breaks : RowBreak e runId s c p q) :
    I q := by
  cases breaks with
  | unopened like => exact keeps.like _ _ holds like
  | pending w failed like => exact keeps.like _ _ (keeps.worked holds w _) like
  | unclosed w ended like => exact keeps.like _ _ (keeps.spent _ (keeps.worked holds w _)) like

end RowKeeps

/-! ## Closed rows -/

/-- A row with an id that is its own is closed alone. -/
theorem closeRow_append {st : Engagement} {rows : List CheckRun} {row : CheckRun}
    (verdict : RowVerdict) (reason : Option String) (sent : Nat)
    (whole : st.checkRuns = rows ++ [row]) (own : ∀ r ∈ rows, r.id ≠ row.id) :
    (st.closeRow row.id verdict reason sent).checkRuns =
      rows ++ [{ row with verdict, reason, requestsSent := sent }] := by
  have kept : rows.map (fun r => if r.id = row.id then
      { r with verdict, reason, requestsSent := sent } else r) = rows :=
    (List.map_congr_left fun r mem => if_neg (own r mem)).trans (List.map_id _)
  change st.checkRuns.map (fun r => if r.id = row.id then
    { r with verdict, reason, requestsSent := sent } else r) = _
  rw [whole, List.map_append, kept, List.map_singleton, if_pos rfl]

/-- A row as it is opened. -/
def openedRow (p : Pass) (runId : Nat) (s : Surface) (c : Check) : CheckRun where
  id := p.store.nextId
  run := runId
  surface := s.id
  check := c.id
  version := c.version

theorem opened_checkRuns (p : Pass) (runId : Nat) (s : Surface) (c : Check) :
    (p.opened runId s c).store.checkRuns = p.store.checkRuns ++ [openedRow p runId s c] := rfl

/-- A row that is closed, with the work that was done on it. -/
structure RowDone (e : Env) (runId : Nat) (s : Surface) (c : Check) (p q : Pass) (w : Work)
    (row : CheckRun) : Prop where
  names : row.id = p.store.nextId ∧ row.run = runId ∧ row.surface = s.id ∧ row.check = c.id
  rows : q.store.checkRuns = p.store.checkRuns ++ [row]
  sent : row.requestsSent = w.sent
  ends : (row.verdict = .skipped ∧ w = {}) ∨ (∃ v, w.Complete v ∧ row.verdict = v.state.row) ∨
    w.Failed e ∧ (row.verdict = .inconclusive ∨ row.verdict = .error)
  store : q.store = { (w.apply runId p.store.nextId s c (p.opened runId s c)).store with
    checkRuns := q.store.checkRuns }
  seen : q.seen = (w.apply runId p.store.nextId s c (p.opened runId s c)).seen
  offered : q.offered = p.offered ++ w.offers s c
  log : q.log =
    w.events p.store.nextId s c (p.bracket.map fun b => b.resolved.generation) ++ p.log
  bracket : q.bracket = p.bracket.map fun b => b.note w.sent
  summary : ∃ key : Option String, (key ≠ none ↔ row.verdict = .skipped) ∧
    q.summary = { p.summary with
      checksRun := p.summary.checksRun + 1
      findings := (w.apply runId p.store.nextId s c (p.opened runId s c)).summary.findings
      skipped := p.summary.skipped + key.elim 0 fun _ => 1
      byReason := key.elim p.summary.byReason fun key => Tally.add key 1 p.summary.byReason
      refused := Tally.addAll w.refused p.summary.refused }

section Ends

variable {e : Env} {runId : Nat} {s : Surface} {c : Check} {p q : Pass}

theorem own_of_issued (issued : p.store.Issued) :
    ∀ r ∈ p.store.checkRuns, r.id ≠ p.store.nextId :=
  fun r mem => Nat.ne_of_lt (issued.2 r mem)

theorem done_of_skipped (issued : p.store.Issued) {key reason : String}
    (like : ((p.opened runId s c).skipped p.store.nextId key reason).Like q) :
    ∃ w row, RowDone e runId s c p q w row := by
  obtain ⟨_, _, _, rfl⟩ := like
  have closed := closeRow_append .skipped reason 0 (opened_checkRuns p runId s c)
    (own_of_issued issued)
  refine ⟨{}, _, ⟨⟨rfl, rfl, rfl, rfl⟩, closed, rfl, .inl ⟨rfl, rfl⟩, rfl, rfl,
    (List.append_nil _).symm, rfl, ?_, some key, ?_, rfl⟩⟩
  · exact Option.map_id'.symm
  · exact iff_of_true (Option.some_ne_none key) rfl

theorem done_of_closed (issued : p.store.Issued) {w : Work} {verdict : RowVerdict}
    {reason : Option String} (word : verdict ≠ .skipped)
    (ends : (∃ v, w.Complete v ∧ verdict = v.state.row) ∨
      w.Failed e ∧ (verdict = .inconclusive ∨ verdict = .error))
    (like : Pass.Like ((w.apply runId p.store.nextId s c (p.opened runId s c)).spent.closed
      p.store.nextId verdict reason) q) : ∃ w row, RowDone e runId s c p q w row := by
  obtain ⟨_, _, _, rfl⟩ := like
  have sent : (w.apply runId p.store.nextId s c (p.opened runId s c)).spent.sent = w.sent :=
    Work.sent_eq rfl
  have whole : (w.apply runId p.store.nextId s c (p.opened runId s c)).store.checkRuns = _ :=
    Work.apply_checkRuns.trans (opened_checkRuns p runId s c)
  have closed := closeRow_append verdict reason w.sent whole (own_of_issued issued)
  refine ⟨w, { id := p.store.nextId, run := runId, surface := s.id, check := c.id
               version := c.version, verdict, reason, requestsSent := w.sent },
    ⟨⟨rfl, rfl, rfl, rfl⟩, ?_, rfl, .inr ends, rfl, rfl, ?_, ?_, ?_, ?_⟩⟩
  · change ((w.apply runId p.store.nextId s c (p.opened runId s c)).store.closeRow
      p.store.nextId verdict reason _).checkRuns = _
    rw [sent]
    exact closed
  · exact Work.apply_offered
  · exact Work.apply_log
  · change Option.map (fun b => Bracket.note b (Pass.sent _)) (Pass.bracket _) = _
    rw [Work.apply_bracket, Work.sent_eq rfl]
    rfl
  · refine ⟨none, iff_of_false (not_not.2 rfl) word, ?_⟩
    change ({ Pass.summary _ with refused := Tally.addAll (Pass.refusals _) _ } : Summary) = _
    rw [Work.refusals_eq rfl, Work.apply_summary]
    rfl

theorem VerdictState.row_ne_skipped (v : VerdictState) : v.row ≠ .skipped := by
  cases v with
  | clean => exact nofun
  | finding => exact nofun
  | inconclusive => exact nofun

/-- Every end of a row closes it. -/
theorem RowEnd.done (issued : p.store.Issued) (ends : RowEnd e runId s c p q) :
    ∃ w row, RowDone e runId s c p q w row := by
  cases ends with
  | skipped key reason like => exact done_of_skipped issued like
  | closed w v complete like =>
      exact done_of_closed issued v.state.row_ne_skipped (.inl ⟨v, complete, rfl⟩) like
  | failed w verdict reason failed word like =>
      refine done_of_closed issued ?_ (.inr ⟨failed, word⟩) like
      rcases word with rfl | rfl
      · exact nofun
      · exact nofun

end Ends

end Hx.Scan
