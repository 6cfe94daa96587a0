import Hx.Scan.Books

/-!
# Every pair is accounted for

A pass that returns has one row for every surface and check it was over, none of them
`pending`, and its summary counts what is on file; a pass that raises leaves one row
`pending` at most. Both need the run row to be the pass's own: `current_run` hands a
`running` one back with what was written under it.
-/

namespace Hx.Scan

open Hx.Checks Hx.Library Hx.Python Hx.Store Prog

/-! ## The run row -/

/-- The run row is there, and `running`. -/
def Live (runId : Nat) (st : Engagement) : Prop :=
  ∃ r ∈ st.runs, r.id = runId ∧ r.status = .running

section Live

variable {runId : Nat} {st : Engagement} {s : Surface} {c : Check} {p q : Pass}

theorem Live.onRun (live : Live runId st) (id : Nat) (change : Run → Run)
    (same : ∀ r, r.status = .running → (change r).id = r.id ∧ (change r).status = .running) :
    Live runId (st.onRun id change) := by
  obtain ⟨r, mem, rfl, running⟩ := live
  refine ⟨_, List.mem_map_of_mem mem, ?_⟩
  split
  · exact same r running
  · exact ⟨rfl, running⟩

theorem Live.heartbeat (live : Live runId st) (at_ : Int) : Live runId (st.heartbeat runId at_) := by
  apply live.onRun
  intro r running
  rw [if_pos running]
  exact ⟨rfl, running⟩

theorem RowEnd.runs (ends : RowEnd e runId s c p q) : q.store.runs = p.store.runs := by
  cases ends with
  | skipped key reason like =>
      rw [like.store_eq]
      rfl
  | closed w v complete like =>
      exact (congrArg Engagement.runs like.store_eq).trans Work.apply_runs
  | failed w verdict reason failed word like =>
      exact (congrArg Engagement.runs like.store_eq).trans Work.apply_runs

theorem Pass.Quiet.store_eq (h : p.Quiet q) : q.store = p.store :=
  h.keeps (I := fun q => q.store = p.store) (fun _ _ same like => like.store_eq.trans same)
    (fun _ _ _ same => same) (fun _ _ same => same) rfl

/-- The loop leaves the run open. -/
theorem live_keeps (e : Env) (runId : Nat) :
    Keeps e runId (fun _ p => Live runId p.store) fun _ => True where
  like l p q live like := like.store_eq ▸ live
  gives _ _ _ := trivial
  canary l p live := wp_mono (wp_canaryIfDue_quiet .refl)
    (fun _ _ h => h.store_eq ▸ live) fun _ _ _ => trivial
  counted _ _ live := live
  heartbeat _ _ at_ live := live.heartbeat at_
  late l p s live := by
    apply wp_mono (wp_skipRest (I := fun _ p => Live runId p.store) (B := fun _ => True) _ _ _ _ live)
    · rintro _ _ ⟨r, live, rfl⟩
      exact live
    · exact fun _ _ _ => trivial
    · exact fun _ _ _ live like => like.store_eq ▸ live
    · exact fun _ _ _ live => live
    · exact fun _ _ _ => trivial
    · exact fun _ _ _ _ _ => trivial
  row l p q s c live _ ends := by
    rw [Live, ends.runs]
    exact live
  breaks _ _ _ _ _ _ _ := trivial

end Live

/-! ## Retirement -/

section Retire

variable {runId : Nat} {seen : List String} {keys : List (String × String × String)}
  {st : Engagement}

theorem foldl_recordObservation (os : List Observation) (st : Engagement) :
    os.foldl Engagement.recordObservation st =
      { st with observations := (os.foldl Engagement.recordObservation st).observations } := by
  induction os generalizing st with
  | nil => rfl
  | cons o os ih =>
      rw [List.foldl_cons, ih]
      rfl

theorem retire_eq : retire runId seen keys st =
    { st with observations := (retire runId seen keys st).observations } := by
  have folded : retire runId seen keys st =
      ((st.findings.filter (retires seen keys)).map (gone runId)).foldl
        Engagement.recordObservation st := by
    rw [List.foldl_map, retire]
  rw [folded]
  exact foldl_recordObservation _ st

/-- What was drawn stays drawn: a finding that was seen is not retired. -/
theorem drawnIn_retire (known : ∀ o ∈ drawnIn st runId, o.finding ∈ seen) :
    drawnIn (retire runId seen keys st) runId = drawnIn st runId := by
  have go : ∀ (fs : List Finding) (st' : Engagement), (∀ f ∈ fs, f.key ∉ seen) →
      drawnIn st' runId = drawnIn st runId →
      drawnIn (fs.foldl (fun st f => st.recordObservation (gone runId f)) st') runId =
        drawnIn st runId := by
    intro fs
    induction fs with
    | nil => exact fun _ _ same => same
    | cons f fs ih =>
        intro st' unseen same
        apply ih _ fun f mem => unseen f (List.mem_cons_of_mem _ mem)
        have recorded : drawnIn (st'.recordObservation (gone runId f)) runId =
            (drawnIn st' runId).filter (fun x => x.finding != f.key) ++ [] :=
          drawnIn_recordObservation (o := gone runId f)
        rw [recorded, List.append_nil, same, List.filter_eq_self]
        intro o mem
        rw [bne_iff_ne]
        intro eq
        exact unseen f List.mem_cons_self (eq ▸ known o mem)
  apply go _ _ _ rfl
  intro f mem known
  have retired := (List.mem_filter.1 mem).2
  rw [retires, List.contains_iff_mem.2 known] at retired
  exact Bool.noConfusion retired

end Retire

/-! ## The pass -/

def Pass.begin (st : Engagement) : Pass := { store := st }

/-- What a pass that is through with its surfaces has on file, and what its summary says
of it. -/
structure Account (e : Env) (surfaces : List Surface) (runId : Nat) (p : Pass) : Prop where
  rows : (rowsOf p.store runId).map rowPair = (e.pairs surfaces).map pairIds
  settled : pendingRows (rowsOf p.store runId) = []
  checksRun : p.summary.checksRun = (rowsOf p.store runId).length
  skipped : p.summary.skipped = (skippedRows (rowsOf p.store runId)).length
  byReason : Tally.total p.summary.byReason = (skippedRows (rowsOf p.store runId)).length
  findings : p.summary.findings = (drawnIn p.store runId).length
  requests : sentBy (rowsOf p.store runId) + p.summary.canaryRequests = issuedIn p.log

/-- The run row is `completed`, and says nothing more if there is nothing more to say. -/
def Completed (runId : Nat) (p : Pass) : Prop :=
  ∃ r ∈ p.store.runs, r.id = runId ∧ r.status = .completed ∧
    (r.stopReason = none ↔
      skippedRows (rowsOf p.store runId) = [] ∧ ∀ event ∈ p.log, event.refused = [])

/-- The account before the run row is closed. -/
structure Tallied (e : Env) (surfaces : List Surface) (runId : Nat) (p : Pass) : Prop where
  account : Account e surfaces runId p
  live : Live runId p.store
  reasons : p.summary.byReason = [] ↔ skippedRows (rowsOf p.store runId) = []
  refused : p.summary.refused = [] ↔ ∀ event ∈ p.log, event.refused = []

section Pass

variable {e : Env} {surfaces : List Surface} {runId : Nat} {p q : Pass}

/-- The account reads the rows and what was drawn, of the store. -/
theorem Account.of_eq (account : Account e surfaces runId p)
    (checkRuns : q.store.checkRuns = p.store.checkRuns)
    (drawn : drawnIn q.store runId = drawnIn p.store runId) (summary : q.summary = p.summary)
    (log : issuedIn q.log = issuedIn p.log) : Account e surfaces runId q := by
  have rows : rowsOf q.store runId = rowsOf p.store runId := by rw [rowsOf, checkRuns, rowsOf]
  obtain ⟨pairs, settled, checksRun, skipped, byReason, findings, requests⟩ := account
  constructor
  · rw [rows]
    exact pairs
  · rw [rows]
    exact settled
  · rw [rows, summary]
    exact checksRun
  · rw [rows, summary]
    exact skipped
  · rw [rows, summary]
    exact byReason
  · rw [drawn, summary]
    exact findings
  · rw [rows, summary, log]
    exact requests

theorem Books.tallied (books : Books runId 0 (e.pairs surfaces) p) (live : Live runId p.store) :
    Tallied e surfaces runId p := by
  obtain ⟨new, rows, pairs, pending⟩ := books.rows.rows
  have findings : p.summary.findings = (drawnIn p.store runId).length := by
    rw [books.seen.counted, ← books.seen.keys.length_eq, List.length_map]
  exact ⟨⟨rows ▸ pairs, books.pending, books.checksRun, books.skipped, books.byReason, findings,
    books.requests⟩, live, books.reasons, books.refused⟩

theorem tallies_eq_nil_iff {m : Summary} : tallies m = [] ↔ m.byReason = [] ∧ m.refused = [] := by
  rw [tallies]
  by_cases skips : m.byReason = []
  · rw [if_pos skips, List.nil_append]
    by_cases refusals : m.refused = []
    · rw [if_pos refusals]
      exact iff_of_true rfl ⟨skips, refusals⟩
    · rw [if_neg refusals]
      exact iff_of_false nofun fun h => refusals h.2
  · rw [if_neg skips]
    exact iff_of_false nofun fun h => skips h.1

theorem stopReason_eq_none_iff {m : Summary} :
    stopReason m = none ↔ m.byReason = [] ∧ m.refused = [] := by
  rw [← tallies_eq_nil_iff, stopReason]
  split
  · rename_i none_
    exact iff_of_true rfl none_
  · rename_i some_
    exact iff_of_false nofun some_

theorem issuedIn_retired (fs : List Finding) : issuedIn (fs.map .retired) = 0 := by
  induction fs with
  | nil => rfl
  | cons f fs ih => exact (Nat.zero_add _).trans ih

theorem Tallied.retired (tallied : Tallied e surfaces runId p)
    {keys : List (String × String × String)} (seen : Seen runId p) (fs : List Finding) :
    Tallied e surfaces runId { p with
      store := retire runId p.seen keys p.store, log := fs.map .retired ++ p.log } := by
  have drawn : drawnIn (retire runId p.seen keys p.store) runId = drawnIn p.store runId :=
    drawnIn_retire fun o mem => seen.keys.mem_iff.1 (List.mem_map_of_mem mem)
  have same : retire runId p.seen keys p.store = _ := retire_eq
  have checkRuns : (retire runId p.seen keys p.store).checkRuns = p.store.checkRuns := by rw [same]
  have issued : issuedIn (fs.map .retired ++ p.log) = issuedIn p.log := by
    rw [issuedIn_append, issuedIn_retired, Nat.zero_add]
  have quiet : ∀ event ∈ fs.map Event.retired, event.refused = [] := by
    intro event mem
    obtain ⟨f, _, rfl⟩ := List.mem_map.1 mem
    rfl
  refine ⟨tallied.account.of_eq checkRuns drawn rfl issued, ?_, ?_, ?_⟩
  · rw [same]
    exact tallied.live
  · rw [rowsOf, checkRuns]
    exact tallied.reasons
  · rw [List.forall_mem_append, and_iff_right quiet]
    exact tallied.refused

theorem Tallied.like (tallied : Tallied e surfaces runId p) (like : p.Like q) :
    Tallied e surfaces runId q := by
  obtain ⟨_, _, _, rfl⟩ := like
  exact ⟨tallied.account.of_eq rfl rfl rfl rfl, tallied.live, tallied.reasons, tallied.refused⟩

theorem atMostOne_of_checkRuns (one : AtMostOnePending runId p)
    (same : q.store.checkRuns = p.store.checkRuns) : AtMostOnePending runId q := by
  rw [AtMostOnePending, rowsOf, same]
  exact one

/-- The retirement does not touch the account. -/
theorem wp_markUnobserved_tallied (books : Books runId 0 (e.pairs surfaces) p)
    (live : Live runId p.store) :
    wp (markUnobserved e runId) (fun _ => Tallied e surfaces runId)
      (fun _ => AtMostOnePending runId) p := by
  have tallied := books.tallied live
  apply wp_markUnobserved
  · exact fun _ => tallied
  · exact (tallied.retired books.seen _).like (.tick _ _)
  · exact fun _ => atMostOne_of_checkRuns books.atMostOne rfl

/-- What is said of the identity is not in the books. -/
theorem Books.identified {l : List (Surface × Check)} (books : Books runId 0 l p)
    (live : Live runId p.store) (b : Bracket) (state : IdentityState) :
    Books runId 0 l (p.identified runId b state) ∧ Live runId (p.identified runId b state).store := by
  have written := books.onRun runId (fun r => { r with
    identity := some b.resolved.id, identityGeneration := some b.resolved.generation
    identityState := some state }) fun _ => rfl
  refine ⟨⟨written.rows.of_store rfl rfl rfl, written.checksRun, written.skipped, written.byReason,
    written.reasons, written.requests.trans (Nat.zero_add _).symm, ?_,
    written.seen.of_eq rfl rfl rfl⟩, ?_⟩
  · have quiet : (∀ event ∈ Event.settled state (p.tick + 1) :: p.log, event.refused = []) ↔
        ∀ event ∈ p.log, event.refused = [] := by
      rw [List.forall_mem_cons]
      exact and_iff_right rfl
    exact written.refused.trans quiet.symm
  · apply live.onRun
    exact fun r running => ⟨rfl, running⟩

theorem wp_body_tallied (books : Books runId 0 [] p) (live : Live runId p.store) :
    wp (body e runId)
      (fun _ q => ∃ t surfaces, e.surfaces t = .ok surfaces ∧ Tallied e surfaces runId q)
      (fun _ => AtMostOnePending runId) p := by
  have keeps := (Books.keeps e runId).and (live_keeps e runId)
  refine wp_mono (wp_body (Q := fun surfaces => Tallied e surfaces runId) keeps ⟨books, live⟩
    ?_ ?_ ?_ ?_) (fun _ _ h => h) fun _ _ h => h.1
  · exact fun l q r holds h => ⟨holds.1.quiet h, h.store_eq ▸ holds.2⟩
  · exact fun l q b state holds => holds.1.identified holds.2 b state
  · exact fun l q state t holds => ⟨atMostOne_of_checkRuns holds.1.atMostOne rfl, trivial⟩
  · intro surfaces q holds
    exact wp_mono (wp_markUnobserved_tallied holds.1 holds.2) (fun _ _ h => h)
      fun _ _ h => ⟨h, trivial⟩

end Pass

end Hx.Scan
