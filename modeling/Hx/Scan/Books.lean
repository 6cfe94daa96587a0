import Hx.Scan.Rows

/-!
# The books of a pass

The rows of a run and the counters of its summary move in different helpers. Between any
two turns of the loop they agree, if the run was the pass's own to begin with.
-/

namespace Hx.Scan

open Hx.Checks Hx.Library Hx.Python Hx.Store Prog

/-! ## Findings -/

/-- What the run drew is what it has seen, each finding once. -/
structure Seen (runId : Nat) (p : Pass) : Prop where
  keys : ((drawnIn p.store runId).map (·.finding)).Perm p.seen
  nodup : p.seen.Nodup
  counted : p.summary.findings = p.seen.length

theorem answersOf_recordObservation {st : Engagement} {o : Observation} :
    answersOf (st.recordObservation o) o.run =
      ((answersOf st o.run).filter fun x => x.finding != o.finding) ++ [o] := by
  rw [answersOf, Engagement.recordObservation, List.filter_append, List.filter_singleton,
    decide_eq_true rfl, List.filter_filter, answersOf, List.filter_filter]
  congr 1
  apply List.filter_congr
  intro x _
  by_cases same : x.run = o.run
  · rw [decide_eq_true same, Bool.true_and, Bool.and_true]
    simp only [same, and_true, decide_not]
    rfl
  · rw [decide_eq_false same, Bool.false_and, Bool.and_false]

theorem drawnIn_recordObservation {st : Engagement} {o : Observation} :
    drawnIn (st.recordObservation o) o.run =
      ((drawnIn st o.run).filter fun x => x.finding != o.finding) ++
        if o.observed then [o] else [] := by
  rw [drawnIn, answersOf_recordObservation, List.filter_append, List.filter_singleton,
    List.filter_filter, drawnIn, List.filter_filter]
  cases o.observed with
  | false => exact congrArg (· ++ []) (List.filter_congr fun x _ => Bool.and_comm _ _)
  | true => exact congrArg (· ++ [o]) (List.filter_congr fun x _ => Bool.and_comm _ _)

/-- An answer about a key moves it to the end of the keys, or adds it. -/
theorem perm_saw {keys seen : List String} (key : String) (perm : keys.Perm seen)
    (nodup : seen.Nodup) : (keys.filter (fun x => x != key) ++ [key]).Perm
      (if seen.contains key then seen else seen ++ [key]) := by
  have erased : keys.filter (fun x => x != key) = keys.erase key :=
    ((perm.nodup_iff.2 nodup).erase_eq_filter key).symm
  rw [erased]
  split
  · rename_i known
    have mem : key ∈ seen := List.contains_iff_mem.1 known
    refine (List.perm_append_singleton key _).trans ?_
    exact (List.perm_cons_erase (perm.mem_iff.2 mem)).symm.trans perm
  · rename_i unknown
    have mem : key ∉ keys := fun mem => unknown (List.contains_iff_mem.2 (perm.mem_iff.1 mem))
    rw [List.erase_of_not_mem mem]
    exact perm.append_right _

namespace Seen

variable {runId row : Nat} {s : Surface} {c : Check} {p q : Pass} {w : Work}

theorem of_eq (holds : Seen runId p) (observations : q.store.observations = p.store.observations)
    (seen : q.seen = p.seen) (findings : q.summary.findings = p.summary.findings) :
    Seen runId q := by
  obtain ⟨keys, nodup, counted⟩ := holds
  have same : drawnIn q.store runId = drawnIn p.store runId := by
    rw [drawnIn, answersOf, observations, drawnIn, answersOf]
  exact ⟨by rw [same, seen]; exact keys, by rw [seen]; exact nodup,
    by rw [findings, seen]; exact counted⟩

theorem filed (holds : Seen runId p) (candidate : Candidate) :
    Seen runId (p.filed runId s c candidate) := by
  obtain ⟨perm, nodup, counted⟩ := holds
  have same : drawnIn (p.filed runId s c candidate).store runId =
      ((drawnIn p.store runId).filter fun x => x.finding != keyOf s c candidate) ++
        [drawn runId s c candidate] := by
    have observations : (p.filed runId s c candidate).store.observations =
      (p.store.recordObservation (drawn runId s c candidate)).observations := rfl
    rw [drawnIn, answersOf, observations]
    exact drawnIn_recordObservation (o := drawn runId s c candidate)
  have seen : (p.filed runId s c candidate).seen =
    if p.seen.contains (keyOf s c candidate) then p.seen
    else p.seen ++ [keyOf s c candidate] := rfl
  have findings : (p.filed runId s c candidate).summary.findings =
    if p.seen.contains (keyOf s c candidate) then p.summary.findings
    else p.summary.findings + 1 := rfl
  refine ⟨?_, ?_, ?_⟩
  · rw [same, seen, List.map_append, List.map_singleton]
    have keys := perm_saw (keyOf s c candidate) perm nodup
    rw [List.filter_map] at keys
    exact keys
  · rw [seen]
    split
    · exact nodup
    · rename_i unknown
      refine List.nodup_append.2 ⟨nodup, List.pairwise_singleton _ _, ?_⟩
      rintro x mem y mem' rfl
      rw [List.mem_singleton.1 mem'] at mem
      exact unknown (List.contains_iff_mem.2 mem)
  · rw [seen, findings]
    split
    · exact counted
    · rw [List.length_append, counted]
      rfl

theorem apply (holds : Seen runId p) : Seen runId (w.apply runId row s c p) :=
  Work.apply_keeps (I := Seen runId) (fun _ candidate holds => holds.filed candidate)
    (fun _ _ _ holds => holds.of_eq rfl rfl rfl) (fun _ _ _ holds => holds.of_eq rfl rfl rfl) holds

end Seen

/-! ## The books -/

/-- The books between two turns. `owed` is what `_skip_rest` has yet to add to the counter
of the skipped rows. -/
structure Books (runId owed : Nat) (l : List (Surface × Check)) (p : Pass) : Prop where
  rows : Rows runId [] l p
  checksRun : p.summary.checksRun = (rowsOf p.store runId).length
  skipped : p.summary.skipped + owed = (skippedRows (rowsOf p.store runId)).length
  byReason : Tally.total p.summary.byReason = (skippedRows (rowsOf p.store runId)).length
  reasons : p.summary.byReason = [] ↔ skippedRows (rowsOf p.store runId) = []
  requests : sentBy (rowsOf p.store runId) + p.summary.canaryRequests = issuedIn p.log
  refused : p.summary.refused = [] ↔ ∀ event ∈ p.log, event.refused = []
  seen : Seen runId p

/-- What is left of the books if the run is raised. -/
def AtMostOnePending (runId : Nat) (p : Pass) : Prop :=
  (pendingRows (rowsOf p.store runId)).length ≤ 1

namespace Books

variable {runId owed : Nat} {l : List (Surface × Check)} {p q : Pass}

theorem pending (holds : Books runId owed l p) : pendingRows (rowsOf p.store runId) = [] := by
  obtain ⟨new, rows, _, pending⟩ := holds.rows.rows
  rw [rows]
  exact pending

theorem atMostOne (holds : Books runId owed l p) : AtMostOnePending runId p := by
  rw [AtMostOnePending, holds.pending]
  exact Nat.zero_le 1

/-- The books do not look at the bracket, and a canary keeps them. -/
theorem quiet (holds : Books runId owed l p) (h : p.Quiet q) : Books runId owed l q := by
  apply h.keeps (I := Books runId owed l) _ _ _ holds
  · rintro p q holds like
    have rows := holds.rows.quiet (.like .refl like)
    obtain ⟨_, _, _, rfl⟩ := like
    exact ⟨rows, holds.checksRun, holds.skipped, holds.byReason, holds.reasons, holds.requests,
      holds.refused, holds.seen.of_eq rfl rfl rfl⟩
  · intro p b got holds
    refine ⟨holds.rows.of_store rfl rfl rfl, holds.checksRun, holds.skipped, holds.byReason,
      holds.reasons, ?_, ?_, holds.seen.of_eq rfl rfl rfl⟩
    · change sentBy (rowsOf p.store runId) + (p.summary.canaryRequests + got.sent) =
        got.sent + issuedIn p.log
      rw [← holds.requests]
      omega
    · change Tally.addAll got.refusals p.summary.refused = [] ↔ _
      rw [Tally.addAll_eq_nil_iff, holds.refused, Pass.canaried, List.forall_mem_cons]
      exact Iff.rfl
  · exact fun p b holds => ⟨holds.rows.of_store rfl rfl rfl, holds.checksRun, holds.skipped,
      holds.byReason, holds.reasons, holds.requests, holds.refused, holds.seen.of_eq rfl rfl rfl⟩

theorem skippedRows_concat (rows : List CheckRun) (row : CheckRun) :
    skippedRows (rows ++ [row]) = if row.verdict = .skipped then skippedRows rows ++ [row]
      else skippedRows rows := by
  rw [skippedRows, List.filter_append, List.filter_singleton]
  by_cases skipped : row.verdict = .skipped
  · rw [if_pos skipped, decide_eq_true skipped]
    rfl
  · rw [if_neg skipped, decide_eq_false skipped]
    exact List.append_nil _

theorem issuedIn_events {w : Work} {row : Nat} {s : Surface} {c : Check}
    {generation : Option Nat} : issuedIn (w.events row s c generation) = w.sent := by
  rw [Work.events, Work.sent]
  cases w.verdict with
  | none =>
      cases w.drove with
      | none => rfl
      | some d => rfl
  | some v =>
      cases w.drove with
      | none => rfl
      | some d => exact Nat.zero_add _

theorem forall_events_refused {w : Work} {row : Nat} {s : Surface} {c : Check}
    {generation : Option Nat} :
    (∀ event ∈ w.events row s c generation, event.refused = []) ↔ w.refused = [] := by
  have verdicts : ∀ event ∈ (w.verdict.map fun v => Event.returned row s c v w.next).toList,
      event.refused = [] := by
    cases w.verdict with
    | none => exact fun _ mem => absurd mem List.not_mem_nil
    | some v =>
        intro event mem
        rw [List.mem_singleton.1 mem]
        rfl
  rw [Work.events, List.forall_mem_append, and_iff_right verdicts, Work.refused]
  cases w.drove with
  | none => exact iff_of_true (fun _ mem => absurd mem List.not_mem_nil) rfl
  | some d => exact List.forall_mem_singleton

theorem row {s : Surface} {c : Check} (holds : Books runId 0 l p)
    (ends : RowEnd e runId s c p q) : Books runId 0 (l ++ [(s, c)]) q := by
  obtain ⟨w, row, done⟩ := ends.done holds.rows.issued
  have more := done.oneMore
  obtain ⟨key, skips, summary⟩ := done.summary
  have skipped := skippedRows_concat (rowsOf p.store runId) row
  rw [← more.rowsOf] at skipped
  have counts : q.summary.skipped + 0 = (skippedRows (rowsOf q.store runId)).length ∧
      Tally.total q.summary.byReason = (skippedRows (rowsOf q.store runId)).length ∧
      (q.summary.byReason = [] ↔ skippedRows (rowsOf q.store runId) = []) := by
    cases key with
    | none =>
        rw [if_neg fun word => skips.2 word rfl] at skipped
        rw [skipped, summary]
        exact ⟨holds.skipped, holds.byReason, holds.reasons⟩
    | some key =>
        rw [if_pos (skips.1 (Option.some_ne_none key))] at skipped
        rw [skipped, summary, List.length_append, ← holds.skipped]
        refine ⟨rfl, ?_, iff_of_false Tally.add_ne_nil (List.append_ne_nil_of_right_ne_nil _ (List.cons_ne_nil _ _))⟩
        change Tally.total (Tally.add key 1 p.summary.byReason) = _
        rw [Tally.total_add, holds.byReason, ← holds.skipped]
        rfl
  obtain ⟨skipped', byReason, reasons⟩ := counts
  refine ⟨holds.rows.oneMore more done.pair done.settled, ?_, skipped', byReason, reasons, ?_, ?_, ?_⟩
  · rw [more.rowsOf, List.length_append, summary, ← holds.checksRun]
    rfl
  · have canaries : q.summary.canaryRequests = p.summary.canaryRequests := by rw [summary]
    rw [more.rowsOf, sentBy_append, canaries, done.log, issuedIn_append, issuedIn_events,
      ← holds.requests, sentBy, done.sent, sentBy]
    omega
  · rw [summary, done.log, Tally.addAll_eq_nil_iff, List.forall_mem_append, forall_events_refused,
      holds.refused]
  · have applied : Seen runId (w.apply runId p.store.nextId s c (p.opened runId s c)) :=
      Seen.apply (holds.seen.of_eq rfl rfl rfl)
    apply applied.of_eq
    · rw [done.store]
    · exact done.seen
    · rw [summary]

theorem late {s : Surface} {c : Check} {reason : String} (holds : Books runId owed l p) :
    Books runId (owed + 1) (l ++ [(s, c)]) (p.late runId s c reason) := by
  have more : OneMore runId p.store (p.late runId s c reason).store
    (lateRow p runId s c reason) := late_oneMore holds.rows.issued
  have skipped := skippedRows_concat (rowsOf p.store runId) (lateRow p runId s c reason)
  have word : (lateRow p runId s c reason).verdict = .skipped := rfl
  rw [← more.rowsOf, if_pos word] at skipped
  refine ⟨holds.rows.oneMore more rfl nofun, ?_, ?_, ?_, ?_, ?_, holds.refused,
    holds.seen.of_eq rfl rfl rfl⟩
  · rw [more.rowsOf, List.length_append, ← holds.checksRun]
    rfl
  · rw [skipped, List.length_append, ← holds.skipped]
    rfl
  · rw [skipped, List.length_append, ← holds.byReason]
    exact Tally.total_add
  · rw [skipped]
    exact iff_of_false Tally.add_ne_nil (List.append_ne_nil_of_right_ne_nil _ (List.cons_ne_nil _ _))
  · rw [more.rowsOf, sentBy_append]
    exact holds.requests

theorem atMostOne_of_opened {s : Surface} {c : Check} (holds : Books runId owed l p)
    (opened : q.store.checkRuns = p.store.checkRuns ++ [openedRow p runId s c]) :
    AtMostOnePending runId q := by
  have rows : rowsOf q.store runId = rowsOf p.store runId ++ [openedRow p runId s c] :=
    rowsOf_of_checkRuns opened rfl
  have none_ := holds.pending
  rw [pendingRows] at none_
  rw [AtMostOnePending, rows, pendingRows, List.filter_append, List.length_append, none_]
  exact Nat.le_of_eq rfl

/-- A run that is raised out of a row leaves that row pending, and no other. -/
theorem breaks {s : Surface} {c : Check} (holds : Books runId 0 l p)
    (breaks : RowBreak e runId s c p q) : AtMostOnePending runId q := by
  have opened : ∀ w : Work,
      (w.apply runId p.store.nextId s c (p.opened runId s c)).store.checkRuns =
        p.store.checkRuns ++ [openedRow p runId s c] := fun w =>
    Work.apply_checkRuns.trans (opened_checkRuns p runId s c)
  cases breaks with
  | unopened like => exact (holds.quiet (.like .refl like)).atMostOne
  | pending w failed like =>
      exact holds.atMostOne_of_opened
        ((congrArg Engagement.checkRuns like.store_eq).trans (opened w))
  | unclosed w ended like =>
      exact holds.atMostOne_of_opened
        ((congrArg Engagement.checkRuns like.store_eq).trans (opened w))

theorem onRun (holds : Books runId owed l p) (id : Nat) (change : Run → Run)
    (same : ∀ r, (change r).id = r.id) :
    Books runId owed l { p with store := p.store.onRun id change } :=
  ⟨holds.rows.onRun id change same, holds.checksRun, holds.skipped, holds.byReason, holds.reasons,
    holds.requests, holds.refused, holds.seen.of_eq rfl rfl rfl⟩

theorem keeps (e : Env) (runId : Nat) :
    Keeps e runId (Books runId 0) (AtMostOnePending runId) where
  like l p q holds like := holds.quiet (.like .refl like)
  gives l p holds := holds.atMostOne
  canary l p holds := wp_mono (wp_canaryIfDue_quiet .refl) (fun _ _ h => holds.quiet h)
    fun _ _ h => (holds.quiet h).atMostOne
  counted l p holds := ⟨holds.rows.of_store rfl rfl rfl, holds.checksRun, holds.skipped,
    holds.byReason, holds.reasons, holds.requests, holds.refused, holds.seen.of_eq rfl rfl rfl⟩
  heartbeat l p at_ holds := holds.onRun runId _ (Rows.heartbeat_id at_)
  late l p s holds := by
    apply wp_mono (wp_skipRest
      (I := fun done => Books runId done.length (l ++ done.map (s, ·)))
      (B := AtMostOnePending runId) _ _ _ _ _)
    · rintro _ _ ⟨r, holds, rfl⟩
      exact ⟨holds.rows.of_store rfl rfl rfl, holds.checksRun, holds.skipped, holds.byReason,
        holds.reasons, holds.requests, holds.refused, holds.seen.of_eq rfl rfl rfl⟩
    · exact fun _ _ h => h
    · exact fun _ _ _ holds like => holds.quiet (.like .refl like)
    · intro done c p holds
      rw [List.map_append, ← List.append_assoc, List.length_append]
      exact holds.late
    · exact fun _ _ holds => holds.atMostOne
    · exact fun _ _ _ _ holds => holds.atMostOne_of_opened rfl
    · rw [List.map_nil, List.append_nil]
      exact holds
  row l p q s c holds _ ends := holds.row ends
  breaks l p q s c holds breaks := holds.breaks breaks

end Books

end Hx.Scan
