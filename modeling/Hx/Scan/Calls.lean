import Hx.Scan.Accounted

/-!
# A call of `scan.run`

`current_run` answers with a run that is `running`, and writes nothing but run rows. If
nothing was drawn and no row was opened under that run before, every pair of the pass is
accounted for; where something was, there are passes that are not.
-/

namespace Hx.Scan

open Hx.Checks Hx.Library Hx.Python Hx.Store Prog

/-! ## The run a call is handed -/

theorem issued_openRun {st : Engagement} (issued : st.Issued) (kind : RunKind) (at_ : Int) :
    (st.openRun kind at_).2.Issued := by
  constructor
  · intro r mem
    rcases List.mem_append.1 mem with mem | mem
    · exact Nat.lt_succ_of_lt (issued.1 r mem)
    · rw [List.mem_singleton.1 mem]
      exact Nat.lt_succ_self _
  · exact fun r mem => Nat.lt_succ_of_lt (issued.2 r mem)

theorem live_openRun (st : Engagement) (kind : RunKind) (at_ : Int) :
    Live st.nextId (st.openRun kind at_).2 :=
  ⟨_, List.mem_append_right _ (List.mem_singleton.2 rfl), rfl, rfl⟩

theorem issued_onRun {st : Engagement} (issued : st.Issued) (id : Nat) (change : Run → Run)
    (same : ∀ r, (change r).id = r.id) : (st.onRun id change).Issued := by
  refine ⟨?_, issued.2⟩
  intro r mem
  obtain ⟨r', mem', rfl⟩ := List.mem_map.1 mem
  split
  · rw [same]
    exact issued.1 r' mem'
  · exact issued.1 r' mem'

theorem closeRun_id (at_ : Int) (status : RunStatus) (reason : Option String) (r : Run) :
    (if r.status = .running then { r with status, endedUs := some at_, stopReason := reason }
      else r).id = r.id := by
  split
  · rfl
  · rfl

/-- The run row says the state. -/
def Recorded (runId : Nat) (state : IdentityState) (st : Engagement) : Prop :=
  ∃ r ∈ st.runs, r.id = runId ∧ r.identityState = some state

theorem recorded_onRun {st : Engagement} {runId id : Nat} {state : IdentityState}
    {change : Run → Run}
    (same : ∀ r, (change r).id = r.id ∧ (change r).identityState = r.identityState) :
    Recorded runId state (st.onRun id change) ↔ Recorded runId state st := by
  have kept : ∀ r : Run, (if r.id = id then change r else r).id = r.id ∧
      (if r.id = id then change r else r).identityState = r.identityState := by
    intro r
    split
    · exact same r
    · exact ⟨rfl, rfl⟩
  constructor
  · rintro ⟨r, mem, own, word⟩
    obtain ⟨r', mem', rfl⟩ := List.mem_map.1 mem
    exact ⟨r', mem', (kept r').1.symm.trans own, (kept r').2.symm.trans word⟩
  · rintro ⟨r, mem, own, word⟩
    exact ⟨_, List.mem_map_of_mem mem, (kept r).1.trans own, (kept r).2.trans word⟩

theorem recorded_closeRun {st : Engagement} {runId id : Nat} {state : IdentityState} {at_ : Int}
    {status : RunStatus} {reason : Option String} :
    Recorded runId state (st.closeRun id at_ status reason) ↔ Recorded runId state st := by
  apply recorded_onRun
  intro r
  split
  · exact ⟨rfl, rfl⟩
  · exact ⟨rfl, rfl⟩

theorem recorded_openRun {st : Engagement} {runId : Nat} {state : IdentityState} {kind : RunKind}
    {at_ : Int} (recorded : Recorded runId state (st.openRun kind at_).2) :
    Recorded runId state st := by
  obtain ⟨r, mem, own, word⟩ := recorded
  rcases List.mem_append.1 mem with mem | mem
  · exact ⟨r, mem, own, word⟩
  · rw [List.mem_singleton.1 mem] at word
    contradiction

/-- `q` is `p`, up to its run rows and what was asked, and no run row says more. -/
structure Pass.Reran (p q : Pass) : Prop where
  rest : ∃ runs next t,
    q = { p with store := { p.store with runs := runs, nextId := next }, tick := t }
  states : ∀ id state, Recorded id state q.store → Recorded id state p.store

/-- What `current_run` leaves: a run that is `running`, and no more than run rows written. -/
structure Begun (p : Pass) (at_ : Int) (runId : Nat) (q : Pass) : Prop where
  id : runId = p.store.handedBack .scan at_
  live : Live runId q.store
  issued : q.store.Issued
  rest : p.Reran q

section Calls

variable {e : Env} {p q : Pass} {runId : Nat} {surfaces : List Surface}

theorem wp_currentRun (issued : p.store.Issued) :
    wp (currentRun e) (Begun p (e.now p.tick)) (fun exc q =>
      p.Reran q ∧ q.store.Issued ∧ ∃ t, e.fault t = some exc) p := by
  rw [currentRun, wp_bind, wp_ask, wp_bind, wp_gets]
  cases live : p.store.liveRun .scan with
  | none =>
      have back : p.store.handedBack .scan (e.now p.tick) = p.store.nextId := by
        rw [Engagement.handedBack, live]
      simp only
      rw [wp_writeId_iff]
      cases fault : e.fault (p.tick + 1) with
      | none => exact ⟨back.symm, live_openRun _ _ _, issued_openRun issued _ _,
          ⟨_, _, _, rfl⟩, fun _ _ => recorded_openRun⟩
      | some exc => exact ⟨⟨⟨_, _, _, rfl⟩, fun _ _ => id⟩, issued, _, fault⟩
  | some r =>
      obtain ⟨mem, _, running⟩ := mem_of_liveRun live
      have back : p.store.handedBack .scan (e.now p.tick) =
          if e.now p.tick - Engagement.lastSeen r ≤ idleCloseUs then r.id
          else p.store.nextId := by
        rw [Engagement.handedBack, live]
      simp only
      split
      · rename_i recent
        rw [if_pos recent] at back
        exact ⟨back.symm, ⟨r, mem, rfl, running⟩, issued, ⟨_, _, _, rfl⟩, fun _ _ => id⟩
      · rename_i idle
        rw [if_neg idle] at back
        rw [wp_bind, wp_write_iff]
        cases fault : e.fault (p.tick + 1) with
        | some exc => exact ⟨⟨⟨_, _, _, rfl⟩, fun _ _ => id⟩, issued, _, fault⟩
        | none =>
            rw [Option.elim_none, wp_writeId_iff]
            have closed := issued_onRun issued r.id _
              (closeRun_id (Engagement.lastSeen r) .completed (some "idle"))
            cases fault' : e.fault (p.tick + 1 + 1) with
            | some exc =>
                exact ⟨⟨⟨_, _, _, rfl⟩, fun _ _ => recorded_closeRun.1⟩, closed, _, fault'⟩
            | none =>
                exact ⟨back.symm, live_openRun _ _ _, issued_openRun closed _ _, ⟨_, _, _, rfl⟩,
                  fun _ _ recorded => recorded_closeRun.1 (recorded_openRun recorded)⟩

/-- A call, along what its body ensures. -/
theorem wp_run {st : Engagement} {Q B R S : Pass → Prop} (issued : st.Issued)
    (nothing : R (Pass.begin st))
    (unbegun : ∀ q, (Pass.begin st).Reran q → q.store.Issued → S q)
    (body_ : ∀ q, Begun (Pass.begin st) (e.now 0) (st.handedBack .scan (e.now 0)) q →
      wp (body e (st.handedBack .scan (e.now 0))) (fun _ => Q) (fun _ => B) q)
    (completed : ∀ q at_ reason t, Q q → R { q with
      store := q.store.closeRun (st.handedBack .scan (e.now 0)) at_ .completed reason, tick := t })
    (uncompleted : ∀ q t, Q q → S { q with tick := t })
    (halted : ∀ exc q, B q →
      wp (halt e (st.handedBack .scan (e.now 0)) exc) (fun _ => R) (fun _ => S) q) :
    wp (run e) (fun _ => R) (fun _ => S) (Pass.begin st) := by
  rw [run]
  split
  · exact nothing
  · rw [wp_bind]
    apply wp_mono (wp_currentRun (p := Pass.begin st) issued)
    · intro runId q begun
      obtain rfl : runId = st.handedBack .scan (e.now 0) := begun.id
      rw [runUnder, wp_bind, wp_attempt]
      apply wp_mono (body_ q begun)
      · intro _ q done
        simp only
        rw [wp_bind, wp_gets]
        apply wp_close_run
        · exact fun at_ t => completed q at_ _ t done
        · exact fun _ t => uncompleted q t done
      · exact halted
    · exact fun _ q h => unbegun q h.1 h.2.1

/-! ## The ways out -/

theorem wp_close_tallied (tallied : Tallied e surfaces runId p) :
    wp (close e runId .completed (stopReason p.summary))
      (fun _ q => Account e surfaces runId q ∧ Completed runId q)
      (fun _ => AtMostOnePending runId) p := by
  apply wp_close_run
  · intro at_ t
    refine ⟨tallied.account.of_eq rfl rfl rfl rfl, ?_⟩
    obtain ⟨r, mem, same, running⟩ := tallied.live
    refine ⟨{ r with status := .completed, endedUs := some at_,
                     stopReason := stopReason p.summary }, ?_, same, rfl, ?_⟩
    · apply List.mem_map.2
      exact ⟨r, mem, (if_pos same).trans (if_pos running)⟩
    · have none_ := stopReason_eq_none_iff (m := p.summary)
      rw [tallied.reasons, tallied.refused] at none_
      exact none_
  · intro exc t
    rw [AtMostOnePending]
    exact tallied.account.settled ▸ Nat.zero_le 1

theorem wp_runUnder (books : Books runId 0 [] p) (live : Live runId p.store) :
    wp (runUnder e runId)
      (fun _ q => ∃ t surfaces, e.surfaces t = .ok surfaces ∧
        Account e surfaces runId q ∧ Completed runId q)
      (fun _ => AtMostOnePending runId) p := by
  rw [runUnder, wp_bind, wp_attempt]
  apply wp_mono (wp_body_tallied books live)
  · rintro _ q ⟨t, surfaces, found, tallied⟩
    simp only
    rw [wp_bind, wp_gets]
    refine wp_mono (wp_close_tallied tallied) ?_ fun _ _ h => h
    exact fun _ r account => ⟨t, surfaces, found, account⟩
  · intro exc q one
    apply wp_halt one
    · exact fun q b one => atMostOne_of_checkRuns one rfl
    · exact fun q t one => atMostOne_of_checkRuns one rfl
    · exact fun q at_ reason t one => atMostOne_of_checkRuns one rfl
    · exact fun q t one => atMostOne_of_checkRuns one rfl

/-! ## The account of a call -/

/-- Nothing is on file under the run that a summary would count. -/
def Untouched (runId : Nat) (st : Engagement) : Prop :=
  rowsOf st runId = [] ∧ drawnIn st runId = []

/-- A call that returns has accounted for every pair, in the rows, in its summary and in
the run row; one that raises has left one row pending at most. -/
def Accounts (e : Env) (runId : Nat) (st : Engagement) : Prop :=
  wp (run e)
    (fun _ p => ∃ t surfaces, e.surfaces t = .ok surfaces ∧
      Account e surfaces runId p ∧ Completed runId p)
    (fun _ => AtMostOnePending runId) (Pass.begin st)

theorem books_of_untouched {st : Engagement} (issued : st.Issued) (untouched : Untouched runId st) :
    Books runId 0 [] (Pass.begin st) := by
  obtain ⟨rows, drawn⟩ := untouched
  have none_ : rowsOf (Pass.begin st).store runId = [] := rows
  have skipped : skippedRows (rowsOf (Pass.begin st).store runId) = [] := by
    rw [none_]
    rfl
  have keys : ((drawnIn (Pass.begin st).store runId).map (·.finding)).Perm [] :=
    (congrArg (List.map (·.finding)) drawn) ▸ List.Perm.refl _
  refine ⟨⟨issued, [], none_, rfl, rfl⟩, ?_, ?_, ?_, ?_, ?_, ?_, ⟨keys, List.nodup_nil, rfl⟩⟩
  · exact (congrArg List.length none_).symm
  · exact (congrArg List.length skipped).symm
  · exact (congrArg List.length skipped).symm
  · exact iff_of_true rfl skipped
  · rw [none_]
    rfl
  · exact iff_of_true rfl fun _ mem => absurd mem List.not_mem_nil

theorem accounts_of_untouched {st : Engagement} (issued : st.Issued) (some_ : e.enabled ≠ [])
    (untouched : Untouched (st.handedBack .scan (e.now 0)) st) :
    Accounts e (st.handedBack .scan (e.now 0)) st := by
  have books := books_of_untouched issued untouched
  rw [Accounts, run, if_neg some_, wp_bind]
  apply wp_mono (wp_currentRun (p := Pass.begin st) issued)
  · rintro runId q ⟨rfl, live, issued, ⟨runs, next, t, rfl⟩, _⟩
    have moved : Books (st.handedBack .scan (e.now 0)) 0 [] { Pass.begin st with
        store := { (Pass.begin st).store with runs := runs, nextId := next }, tick := t } := by
      obtain ⟨rows, checksRun, skipped, byReason, reasons, requests, refused, seen⟩ := books
      exact ⟨⟨issued, rows.rows⟩, checksRun, skipped, byReason, reasons, requests, refused,
        seen.of_eq rfl rfl rfl⟩
    exact wp_runUnder moved live
  · rintro _ q ⟨⟨⟨_, _, _, rfl⟩, _⟩, _⟩
    exact atMostOne_of_checkRuns books.atMostOne rfl

/-! ## A pass with nothing to do -/

def idleCheck : Check where
  id := "idle"
  version := "1"
  klass := "passive"
  hook := .onSurface
  insertionKinds := []

/-- One check, nothing to look at, and nothing that fails. -/
def idle (at_ : Int) : Env where
  texts := ⟨id, fun _ => .ok []⟩
  checks := [idleCheck]
  classes _ := true
  passes _ := true
  bridged := false
  identity := none
  scanIdentity := none
  identities := []
  environ _ := none
  requestPath _ := .ok none
  derive _ _ := .ok []
  attributeError _ := ""
  now _ := at_
  late _ := false
  surfaces _ := .ok []
  exchanges _ _ := .ok []
  blob _ _ := .ok none
  fault _ := none
  probes _ _ _ _ _ _ := ⟨.other "", 0, []⟩
  onSurface _ _ _ _ := .other ""
  command _ _ := .notRun ""
  register _ _ _ := ⟨none, fun _ => 0, none⟩
  get _ _ _ _ := .refused "" false

/-- It counts nothing, whatever is under the run. -/
theorem wp_idle {st : Engagement} {at_ : Int} (issued : st.Issued) :
    wp (run (idle at_))
      (fun _ q => q.summary.checksRun = 0 ∧ q.summary.findings = 0 ∧
        q.store.checkRuns = st.checkRuns ∧ q.store.observations = st.observations)
      (fun _ _ => False) (Pass.begin st) := by
  have some_ : (idle at_).enabled ≠ [] := List.cons_ne_nil _ _
  rw [run, if_neg some_, wp_bind]
  apply wp_mono (wp_currentRun (p := Pass.begin st) issued)
  · rintro runId q ⟨_, _, _, ⟨runs, next, t, rfl⟩, _⟩
    exact ⟨rfl, rfl, rfl, rfl⟩
  · rintro exc q ⟨_, _, t, fault⟩
    have none_ : (none : Option Exc) = some exc := fault
    contradiction

theorem untouched_of_accounts {st : Engagement} {at_ : Int} (issued : st.Issued)
    (accounts : Accounts (idle at_) runId st) : Untouched runId st := by
  have both := wp_and accounts (wp_idle issued)
  rw [wp] at both
  cases result : (run (idle at_) (Pass.begin st)).1 with
  | error exc =>
      rw [result] at both
      exact both.2.elim
  | ok _ =>
      rw [result] at both
      obtain ⟨⟨_, _, _, account, _⟩, checksRun, findings, checkRuns, observations⟩ := both
      have rows := account.checksRun
      have drawn := account.findings
      rw [checksRun, rowsOf, checkRuns] at rows
      rw [findings, drawnIn, answersOf, observations] at drawn
      exact ⟨List.length_eq_zero_iff.1 rows.symm, List.length_eq_zero_iff.1 drawn.symm⟩

def front : Surface := ⟨"front", "GET", ⟨"http", "shop", 80⟩, "/", none⟩

/-- One surface, and what the check says of it. -/
def looking (v : Returned) : Env :=
  { idle 60000000 with
    surfaces := fun _ => .ok [front]
    onSurface := fun _ _ _ _ => .verdict v }

def retried : Env := looking (.ofVerdict (.clean []))

/-- A pass was killed a minute ago, inside its first row. -/
def killed : Engagement where
  runs := [{ id := 0, kind := .scan, startedUs := 0, heartbeatUs := some 0 }]
  checkRuns := [⟨1, 0, "front", "idle", "1", .pending, none, 0⟩]
  nextId := 2

/-- The pass after it returns, having counted one of the two rows of the pair. -/
theorem killed_unaccounted : killed.handedBack .scan 60000000 = 0 ∧
    (run retried (Pass.begin killed)).1 = .ok () ∧ ¬ Accounts retried 0 killed := by
  have returned : (run retried (Pass.begin killed)).1 = .ok () := rfl
  refine ⟨rfl, returned, ?_⟩
  intro accounts
  rw [Accounts, wp, returned] at accounts
  obtain ⟨_, _, _, account, _⟩ := accounts
  have rows : (run retried (Pass.begin killed)).2.summary.checksRun = _ := account.checksRun
  have counted : (run retried (Pass.begin killed)).2.summary.checksRun = 1 := rfl
  have held : (rowsOf (run retried (Pass.begin killed)).2.store 0).length = 2 := rfl
  rw [counted, held] at rows
  contradiction

/-- Of the stores a call can be made on, every pass accounts for all its pairs on those
where nothing was written under the run it is handed. -/
theorem accounts_iff {st : Engagement} (issued : st.Issued) (at_ : Int) :
    (∀ e : Env, e.enabled ≠ [] → e.now 0 = at_ → Accounts e (st.handedBack .scan at_) st) ↔
      Untouched (st.handedBack .scan at_) st := by
  constructor
  · intro accounts
    exact untouched_of_accounts issued (accounts (idle at_) (List.cons_ne_nil _ _) rfl)
  · rintro untouched e some_ rfl
    exact accounts_of_untouched issued some_ untouched

theorem issued_new : ({} : Engagement).Issued :=
  ⟨fun _ mem => absurd mem List.not_mem_nil, fun _ mem => absurd mem List.not_mem_nil⟩

/-- On a new engagement the same pass accounts for its pair. -/
theorem new_accounted : Accounts retried (Engagement.handedBack {} .scan 60000000) {} := by
  have untouched : Untouched (Engagement.handedBack {} .scan 60000000) {} := ⟨rfl, rfl⟩
  exact (accounts_iff issued_new 60000000).2 untouched retried (List.cons_ne_nil _ _) rfl

end Calls

end Hx.Scan
