import Hx.Scan.Done

/-!
# One row for every pair

The rows of a run are what was under it before and one closed row for every surface and
check the loop is done with, whatever failed on the way. What the log and the tallies
count is defined here too.
-/

namespace Hx.Scan

open Hx.Checks Hx.Library Hx.Python Hx.Store Prog

/-! ## Tallies -/

namespace Tally

variable {t more : Tally} {key : String} {n : Nat}

theorem total_add : total (add key n t) = total t + n := by
  induction t with
  | nil => exact Nat.add_comm n 0
  | cons kn rest ih =>
      rw [add]
      split
      · simp only [total]
        omega
      · simp only [total, ih]
        omega

theorem add_ne_nil : add key n t ≠ [] := by
  cases t with
  | nil => exact nofun
  | cons kn rest =>
      rw [add]
      split
      · exact nofun
      · exact nofun

theorem addAll_eq_nil_iff : addAll more t = [] ↔ more = [] ∧ t = [] := by
  rw [addAll]
  induction more generalizing t with
  | nil => exact (and_iff_right rfl).symm
  | cons kn more ih =>
      rw [List.foldl_cons, ih]
      exact iff_of_false (fun h => add_ne_nil h.2) (fun h => nomatch h.1)

end Tally

/-! ## What is counted -/

/-- The rows of a run. -/
def rowsOf (st : Engagement) (runId : Nat) : List CheckRun :=
  st.checkRuns.filter fun r => r.run = runId

def pendingRows (rows : List CheckRun) : List CheckRun :=
  rows.filter fun r => r.verdict = .pending

def skippedRows (rows : List CheckRun) : List CheckRun :=
  rows.filter fun r => r.verdict = .skipped

/-- What a run answered. -/
def answersOf (st : Engagement) (runId : Nat) : List Observation :=
  st.observations.filter fun o => o.run = runId

/-- The findings with `observed = 1`. -/
def drawnIn (st : Engagement) (runId : Nat) : List Observation :=
  (answersOf st runId).filter (·.observed)

/-- The sum of `requests_sent`. -/
def sentBy : List CheckRun → Nat
  | [] => 0
  | r :: rows => r.requestsSent + sentBy rows

/-- The requests that went out, by the log. -/
def issuedIn : List Event → Nat
  | [] => 0
  | event :: log => event.sent + issuedIn log

theorem sentBy_append {rows more : List CheckRun} :
    sentBy (rows ++ more) = sentBy rows + sentBy more := by
  induction rows with
  | nil => exact (Nat.zero_add _).symm
  | cons r rows ih =>
      rw [List.cons_append, sentBy, sentBy, ih]
      omega

theorem issuedIn_append {log more : List Event} :
    issuedIn (log ++ more) = issuedIn log + issuedIn more := by
  induction log with
  | nil => exact (Nat.zero_add _).symm
  | cons event log ih =>
      rw [List.cons_append, issuedIn, issuedIn, ih]
      omega

def rowPair (r : CheckRun) : String × String := (r.surface, r.check)

def pairIds (sc : Surface × Check) : String × String := (sc.1.id, sc.2.id)

theorem rowsOf_of_checkRuns {st st' : Engagement} {runId : Nat} {row : CheckRun}
    (rows : st'.checkRuns = st.checkRuns ++ [row]) (own : row.run = runId) :
    rowsOf st' runId = rowsOf st runId ++ [row] := by
  rw [rowsOf, rows, List.filter_append, List.filter_singleton, decide_eq_true own]
  rfl

/-! ## One more row -/

/-- The store has one row more, with the next id. -/
structure OneMore (runId : Nat) (st st' : Engagement) (row : CheckRun) : Prop where
  rows : st'.checkRuns = st.checkRuns ++ [row]
  id : row.id = st.nextId
  run : row.run = runId
  next : st'.nextId = st.nextId + 1
  runs : st'.runs = st.runs

namespace OneMore

variable {runId : Nat} {st st' : Engagement} {row : CheckRun}

theorem issued (more : OneMore runId st st' row) (issued : st.Issued) : st'.Issued := by
  constructor
  · intro r mem
    rw [more.next]
    exact Nat.lt_succ_of_lt (issued.1 r (more.runs ▸ mem))
  · intro r mem
    rw [more.next]
    rw [more.rows, List.mem_append, List.mem_singleton] at mem
    rcases mem with mem | rfl
    · exact Nat.lt_succ_of_lt (issued.2 r mem)
    · exact more.id ▸ Nat.lt_succ_self _

theorem rowsOf (more : OneMore runId st st' row) :
    Scan.rowsOf st' runId = Scan.rowsOf st runId ++ [row] :=
  rowsOf_of_checkRuns more.rows more.run

end OneMore

section Row

variable {e : Env} {runId : Nat} {s : Surface} {c : Check} {p q : Pass} {w : Work} {row : CheckRun}
  {reason : String}

theorem RowDone.oneMore (done : RowDone e runId s c p q w row) :
    OneMore runId p.store q.store row := by
  refine ⟨done.rows, done.names.1, done.names.2.1, ?_, ?_⟩
  · rw [done.store]
    exact Work.apply_nextId
  · rw [done.store]
    exact Work.apply_runs

theorem RowDone.settled (done : RowDone e runId s c p q w row) : row.verdict ≠ .pending := by
  rcases done.ends with ⟨skipped, _⟩ | ⟨v, _, verdict⟩ | ⟨_, word⟩
  · rw [skipped]
    exact nofun
  · rw [verdict]
    cases v.state with
    | clean => exact nofun
    | finding => exact nofun
    | inconclusive => exact nofun
  · rcases word with word | word
    · rw [word]
      exact nofun
    · rw [word]
      exact nofun

theorem RowDone.pair (done : RowDone e runId s c p q w row) : rowPair row = pairIds (s, c) := by
  rw [rowPair, done.names.2.2.1, done.names.2.2.2]
  rfl

/-- The row `_skip_rest` writes. -/
def lateRow (p : Pass) (runId : Nat) (s : Surface) (c : Check) (reason : String) : CheckRun where
  id := p.store.nextId
  run := runId
  surface := s.id
  check := c.id
  version := c.version
  verdict := .skipped
  reason := some reason

theorem late_oneMore (issued : p.store.Issued) :
    OneMore runId p.store (p.late runId s c reason).store (lateRow p runId s c reason) :=
  ⟨closeRow_append .skipped (some reason) 0 (opened_checkRuns p runId s c) (own_of_issued issued),
    rfl, rfl, rfl, rfl⟩

end Row

/-! ## The rows -/

/-- The rows of the run are what was there before, and one closed row for every pair that
is done. -/
structure Rows (runId : Nat) (earlier : List CheckRun) (l : List (Surface × Check))
    (p : Pass) : Prop where
  issued : p.store.Issued
  rows : ∃ new, rowsOf p.store runId = earlier ++ new ∧
    new.map rowPair = l.map pairIds ∧ pendingRows new = []

namespace Rows

variable {runId : Nat} {earlier : List CheckRun} {l : List (Surface × Check)} {p q : Pass}

theorem of_store (holds : Rows runId earlier l p) (runs : q.store.runs = p.store.runs)
    (checkRuns : q.store.checkRuns = p.store.checkRuns) (next : q.store.nextId = p.store.nextId) :
    Rows runId earlier l q := by
  obtain ⟨issued, new, rows, rest⟩ := holds
  refine ⟨?_, new, ?_, rest⟩
  · rw [Engagement.Issued, runs, checkRuns, next]
    exact issued
  · rw [rowsOf, checkRuns]
    exact rows

theorem oneMore (holds : Rows runId earlier l p) {row : CheckRun} {s : Surface} {c : Check}
    (more : OneMore runId p.store q.store row) (pair : rowPair row = pairIds (s, c))
    (settled : row.verdict ≠ .pending) : Rows runId earlier (l ++ [(s, c)]) q := by
  obtain ⟨issued, new, rows, pairs, pending⟩ := holds
  refine ⟨more.issued issued, new ++ [row], ?_, ?_, ?_⟩
  · rw [more.rowsOf, rows, List.append_assoc]
  · rw [List.map_append, List.map_append, pairs, List.map_singleton, List.map_singleton, pair]
  · rw [pendingRows, List.filter_append, List.filter_singleton, decide_eq_false settled]
    exact (List.append_nil _).trans pending

theorem onRun (holds : Rows runId earlier l p) (id : Nat) (change : Run → Run)
    (same : ∀ r, (change r).id = r.id) :
    Rows runId earlier l { p with store := p.store.onRun id change } := by
  obtain ⟨issued, rest⟩ := holds
  refine ⟨⟨?_, issued.2⟩, rest⟩
  intro r mem
  obtain ⟨r', mem', rfl⟩ := List.mem_map.1 mem
  split
  · rw [same]
    exact issued.1 r' mem'
  · exact issued.1 r' mem'

theorem quiet (holds : Rows runId earlier l p) (h : p.Quiet q) : Rows runId earlier l q := by
  apply h.keeps (I := Rows runId earlier l) _ _ _ holds
  · intro p q holds like
    obtain ⟨_, _, _, rfl⟩ := like
    exact holds.of_store rfl rfl rfl
  · exact fun _ _ _ holds => holds.of_store rfl rfl rfl
  · exact fun _ _ holds => holds.of_store rfl rfl rfl

theorem heartbeat_id (at_ : Int) (r : Run) :
    (if r.status = .running then { r with heartbeatUs := some at_ } else r).id = r.id := by
  split
  · rfl
  · rfl

/-- One row for every pair, whatever fails on the way. -/
theorem keeps (e : Env) (runId : Nat) (earlier : List CheckRun) :
    Keeps e runId (Rows runId earlier) fun _ => True where
  like l p q holds like := holds.quiet (.like .refl like)
  gives _ _ _ := trivial
  canary l p holds := wp_mono (wp_canaryIfDue_quiet .refl) (fun _ _ h => holds.quiet h)
    fun _ _ _ => trivial
  counted l p holds := holds.of_store rfl rfl rfl
  heartbeat l p at_ holds := holds.onRun runId _ (heartbeat_id at_)
  late l p s holds := by
    apply wp_mono (wp_skipRest (I := fun done => Rows runId earlier (l ++ done.map (s, ·)))
      (B := fun _ => True) _ _ _ _ _)
    · rintro _ _ ⟨r, holds, rfl⟩
      exact holds.of_store rfl rfl rfl
    · exact fun _ _ _ => trivial
    · exact fun _ _ _ holds like => holds.quiet (.like .refl like)
    · intro done c p holds
      rw [List.map_append, ← List.append_assoc]
      exact holds.oneMore (late_oneMore holds.issued) rfl nofun
    · exact fun _ _ _ => trivial
    · exact fun _ _ _ _ _ => trivial
    · rw [List.map_nil, List.append_nil]
      exact holds
  row l p q s c holds _ ends := by
    obtain ⟨w, row, done⟩ := ends.done holds.issued
    exact holds.oneMore done.oneMore done.pair done.settled
  breaks _ _ _ _ _ _ _ := trivial

end Rows

end Hx.Scan
