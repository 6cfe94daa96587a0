import Hx.Scan.Canaries

/-!
# The loop over the surfaces

The invariant rule of the two nested loops, over the pairs of a surface and a check whose
row is closed, and the rules of what comes after them.
-/

namespace Hx.Scan

open Hx.Checks Hx.Library Hx.Python Hx.Store Prog

/-- The pairs a pass has to account for, in their order. -/
def Env.pairs (e : Env) (surfaces : List Surface) : List (Surface × Check) :=
  (surfaces.filter e.passes).flatMap fun s => e.enabled.map fun c => (s, c)

/-- An invariant of the loop: what `I` says of the pairs that are done is kept by every
statement of a turn, and what raises leaves at least `B`. -/
structure Keeps (e : Env) (runId : Nat) (I : List (Surface × Check) → Pass → Prop)
    (B : Pass → Prop) : Prop where
  like : ∀ l p q, I l p → p.Like q → I l q
  gives : ∀ l p, I l p → B p
  canary : ∀ l p, I l p → wp (canaryIfDue e) (fun _ => I l) (fun _ => B) p
  counted : ∀ l p, I l p →
    I l { p with summary := { p.summary with surfaces := p.summary.surfaces + 1 } }
  heartbeat : ∀ l p at_, I l p → I l { p with store := p.store.heartbeat runId at_ }
  late : ∀ l p s, I l p → wp (skipRest e runId s "budget")
    (fun _ => I (l ++ e.enabled.map fun c => (s, c))) (fun _ => B) p
  row : ∀ l p q s c, I l p → p.NotDue → RowEnd e runId s c p q → I (l ++ [(s, c)]) q
  breaks : ∀ l p q s c, I l p → RowBreak e runId s c p q → B q

namespace Keeps

variable {e : Env} {runId : Nat} {I : List (Surface × Check) → Pass → Prop} {B : Pass → Prop}

theorem wp_turn (keeps : Keeps e runId I B) {l : List (Surface × Check)} {p : Pass} {s : Surface}
    {exchanges : List ExchangeRow} {c : Check} (holds : I l p) :
    wp (turn e runId s exchanges c) (fun _ => I (l ++ [(s, c)])) (fun _ => B) p := by
  rw [turn, wp_bind]
  apply wp_mono (wp_and (keeps.canary l p holds) wp_canaryIfDue_notDue)
  · rintro _ q ⟨holds, notDue⟩
    apply wp_mono wp_rowTurn
    · exact fun _ r ends => keeps.row l q r s c holds notDue ends
    · exact fun _ r breaks => keeps.breaks l q r s c holds breaks
  · exact fun _ _ b => b.1

theorem wp_surfaceTurn (keeps : Keeps e runId I B) {l : List (Surface × Check)} {p : Pass}
    {s : Surface} (holds : I l p) :
    wp (surfaceTurn e runId s) (fun _ => I (l ++ e.pairs [s])) (fun _ => B) p := by
  have pairs : e.pairs [s] = if e.passes s then e.enabled.map (fun c => (s, c)) else [] := by
    rw [Env.pairs, List.filter_singleton]
    cases e.passes s with
    | true => exact List.flatMap_singleton _ _
    | false => rfl
  rw [surfaceTurn, pairs]
  split
  · rw [wp_bind, wp_ask]
    have tick : ∀ q, I l q → ∀ t, I l { q with tick := t } := fun q holds t =>
      keeps.like l q _ holds (.tick q t)
    split
    · exact keeps.late l _ s (tick p holds _)
    · rw [summarise, wp_bind, wp_modify, wp_bind, wp_ask, wp_bind]
      have counted := tick _ (keeps.counted l _ (tick p holds (p.tick + 1))) (p.tick + 1 + 1)
      apply wp_write
      · rw [wp_bind, wp_ask, wp_bind]
        have beat := tick _ (keeps.heartbeat l _ (e.now (p.tick + 1)) counted)
        apply wp_returns
        · intro exchanges _
          rw [wp_bind, wp_modify]
          apply wp_forEach (I := fun done => I (l ++ done.map fun c => (s, c)))
          · intro done c q _ holds
            rw [List.map_append, ← List.append_assoc]
            exact keeps.wp_turn holds
          · rw [List.map_nil, List.append_nil]
            exact keeps.like l _ _ (beat _) ⟨_, none, none, rfl⟩
        · exact fun _ _ => keeps.gives l _ (beat _)
      · exact fun _ => keeps.gives l _ (tick _ counted _)
  · rw [List.append_nil]
    exact holds

/-- The loop rule. -/
theorem wp_loop (keeps : Keeps e runId I B) {p : Pass} (surfaces : List Surface)
    (start : I [] p) :
    wp (forEach (surfaceTurn e runId) surfaces) (fun _ => I (e.pairs surfaces)) (fun _ => B) p := by
  apply wp_forEach (I := fun done => I (e.pairs done))
  · intro done s q _ holds
    have pairs : e.pairs (done ++ [s]) = e.pairs done ++ e.pairs [s] := by
      rw [Env.pairs, List.filter_append, List.flatMap_append, Env.pairs, Env.pairs]
    rw [pairs]
    exact keeps.wp_surfaceTurn holds
  · exact start

/-- Two invariants of the loop hold together. -/
theorem and {I' : List (Surface × Check) → Pass → Prop} {B' : Pass → Prop}
    (keeps : Keeps e runId I B) (keeps' : Keeps e runId I' B') :
    Keeps e runId (fun l p => I l p ∧ I' l p) fun p => B p ∧ B' p where
  like l p q holds same := ⟨keeps.like l p q holds.1 same, keeps'.like l p q holds.2 same⟩
  gives l p holds := ⟨keeps.gives l p holds.1, keeps'.gives l p holds.2⟩
  canary l p holds := wp_and (keeps.canary l p holds.1) (keeps'.canary l p holds.2)
  counted l p holds := ⟨keeps.counted l p holds.1, keeps'.counted l p holds.2⟩
  heartbeat l p at_ holds := ⟨keeps.heartbeat l p at_ holds.1, keeps'.heartbeat l p at_ holds.2⟩
  late l p s holds := wp_and (keeps.late l p s holds.1) (keeps'.late l p s holds.2)
  row l p q s c holds notDue ends :=
    ⟨keeps.row l p q s c holds.1 notDue ends, keeps'.row l p q s c holds.2 notDue ends⟩
  breaks l p q s c holds ends :=
    ⟨keeps.breaks l p q s c holds.1 ends, keeps'.breaks l p q s c holds.2 ends⟩

end Keeps

/-! ## Statements after the loop -/

section Statements

variable {e : Env} {p : Pass} {runId : Nat}

/-- The state is on its way to the caller. -/
def Pass.said (p : Pass) (state : IdentityState) : Pass :=
  { p with summary := { p.summary with identityState := some state } }

/-- The state is on the run row too. -/
def Pass.identified (p : Pass) (runId : Nat) (b : Bracket) (state : IdentityState) : Pass :=
  { p.said state with
    store := p.store.recordIdentity runId b.resolved.id b.resolved.generation state
    tick := p.tick + 1
    log := .settled state (p.tick + 1) :: p.log }

/-- The state is on its way to the caller even where it could not be written. -/
theorem wp_settleIdentity {b : Bracket} {state : IdentityState} {Q : Unit → Pass → Prop}
    {E : Exc → Pass → Prop} (written : Q () (p.identified runId b state))
    (raised : ∀ exc, E exc { p.said state with tick := p.tick + 1 }) :
    wp (settleIdentity e runId b state) Q E p := by
  rw [settleIdentity, summarise, wp_bind, wp_modify, wp_bind]
  exact wp_write written raised

theorem wp_close_run {status : RunStatus} {reason : Option String} {Q : Unit → Pass → Prop}
    {E : Exc → Pass → Prop}
    (written : ∀ at_ t, Q () { p with
      store := p.store.closeRun runId at_ status reason, tick := t })
    (raised : ∀ exc t, E exc { p with tick := t }) : wp (close e runId status reason) Q E p := by
  rw [close, wp_bind, wp_ask]
  apply wp_write
  · exact written _ _
  · exact fun exc => raised exc _

/-- Nothing is written where nothing is offered. -/
theorem wp_markUnobserved {Q : Unit → Pass → Prop} {E : Exc → Pass → Prop}
    (nothing : considered p.offered p.summary.identityState (p.bracket.map Bracket.target) = [] →
      Q () p)
    (written : Q () { p with
      store := retire runId p.seen (considered p.offered p.summary.identityState
        (p.bracket.map Bracket.target)) p.store
      tick := p.tick + 1
      log := (p.store.findings.filter (retires p.seen (considered p.offered
        p.summary.identityState (p.bracket.map Bracket.target)))).map .retired ++ p.log })
    (raised : ∀ exc, E exc { p with tick := p.tick + 1 }) : wp (markUnobserved e runId) Q E p := by
  rw [markUnobserved, wp_bind, wp_gets]
  simp only [id]
  split
  · rename_i none_
    exact nothing none_
  · rw [wp_bind]
    exact wp_write written raised

end Statements

/-! ## Rows past the deadline -/

/-- A row of `_skip_rest`, before the counter of the skipped rows. -/
def Pass.late (p : Pass) (runId : Nat) (s : Surface) (c : Check) (reason : String) : Pass :=
  { p with
    store := (p.store.openRow runId s.id c.id c.version).2.closeRow p.store.nextId .skipped
      (some reason) 0
    summary := { p.summary with
      checksRun := p.summary.checksRun + 1, byReason := Tally.add reason 1 p.summary.byReason } }

/-- `_skip_rest` stopped inside a row. -/
def Pass.stopped (p : Pass) (runId : Nat) (s : Surface) (c : Check) : Pass :=
  { p with
    store := (p.store.openRow runId s.id c.id c.version).2
    summary := { p.summary with checksRun := p.summary.checksRun + 1 } }

theorem wp_skipRest {e : Env} {runId : Nat} {I : List Check → Pass → Prop} {B : Pass → Prop}
    {p : Pass} {s : Surface} {reason : String}
    (like : ∀ l p q, I l p → p.Like q → I l q)
    (late : ∀ l c p, I l p → I (l ++ [c]) (p.late runId s c reason))
    (gives : ∀ l p, I l p → B p)
    (stopped : ∀ l c p t, I l p → B { p.stopped runId s c with tick := t }) (holds : I [] p) :
    wp (skipRest e runId s reason) (fun _ q => ∃ r, I e.enabled r ∧ q = { r with
      summary := { r.summary with skipped := r.summary.skipped + e.enabled.length } })
      (fun _ => B) p := by
  rw [skipRest, wp_bind]
  refine wp_mono (wp_forEach (I := I) (E := fun _ => B) ?_ p holds) ?_ fun _ _ b => b
  · intro done c q _ holds
    rw [wp_bind, openRow]
    apply wp_writeId
    · rw [wp_bind, summarise, wp_modify, wp_bind, closeRow]
      apply wp_write
      · rw [summarise, wp_modify]
        exact like _ _ _ (late done c q holds) (.tick _ _)
      · exact fun _ => stopped done c q _ holds
    · exact fun _ => gives done _ (like _ _ _ holds (.tick _ _))
  · intro _ q holds
    exact ⟨q, holds, rfl⟩

/-! ## The end of the identity -/

section Ends

variable {e : Env} {p : Pass} {runId : Nat} {I B : Pass → Prop}

/-- After the closing canary the state is said, and written. -/
theorem wp_settleBracket (start : I p) (quiet : ∀ q r, I q → q.Quiet r → I r)
    (identified : ∀ q b state, I q → I (q.identified runId b state)) (gives : ∀ q, I q → B q)
    (said : ∀ q state t, I q → B { q.said state with tick := t }) :
    wp (settleBracket e runId) (fun _ => I) (fun _ => B) p := by
  rw [settleBracket, wp_bind, wp_gets]
  cases p.bracket with
  | none => exact start
  | some b =>
      simp only
      rw [wp_bind]
      refine wp_mono (wp_finish_quiet .refl) ?_ fun _ q h => gives q (quiet p q start h)
      intro _ q h
      rw [wp_bind, wp_gets]
      have holds := quiet p q start h
      cases q.bracket with
      | none => exact holds
      | some b =>
          apply wp_settleIdentity
          · exact identified _ _ _ holds
          · exact fun _ => said _ _ _ holds

/-- A run that halts says what it can of its identity, and closes. -/
theorem wp_halt {exc : Exc} {Q : Unit → Pass → Prop} (start : B p)
    (identified : ∀ q b, B q → B (q.identified runId b (haltState exc)))
    (said : ∀ q t, B q → B { q.said (haltState exc) with tick := t })
    (closed : ∀ q at_ reason t, B q →
      B { q with store := q.store.closeRun runId at_ .error (some reason), tick := t })
    (tick : ∀ q t, B q → B { q with tick := t }) :
    wp (halt e runId exc) Q (fun _ => B) p := by
  rw [halt, wp_bind, wp_gets]
  have closes : ∀ q, B q → wp (do
      let summary ← gets Pass.summary
      close e runId .error (haltReason exc summary)
      .raise exc) Q (fun _ => B) q := by
    intro q holds
    rw [wp_bind, wp_gets, wp_bind]
    apply wp_close_run
    · exact fun at_ t => closed q at_ _ t holds
    · exact fun _ t => tick q t holds
  cases p.bracket with
  | none => exact closes p start
  | some b =>
      simp only
      rw [wp_bind]
      apply wp_settleIdentity
      · exact closes _ (identified p b start)
      · exact fun _ => said p _ start

/-- The body of a pass, along an invariant of its loop. -/
theorem wp_body {I : List (Surface × Check) → Pass → Prop} {Q : List Surface → Pass → Prop}
    (keeps : Keeps e runId I B) (start : I [] p) (quiet : ∀ l q r, I l q → q.Quiet r → I l r)
    (identified : ∀ l q b state, I l q → I l (q.identified runId b state))
    (said : ∀ l q state t, I l q → B { q.said state with tick := t })
    (mark : ∀ surfaces q, I (e.pairs surfaces) q →
      wp (markUnobserved e runId) (fun _ => Q surfaces) (fun _ => B) q) :
    wp (body e runId) (fun _ q => ∃ t surfaces, e.surfaces t = .ok surfaces ∧ Q surfaces q)
      (fun _ => B) p := by
  have raised : ∀ q, p.Quiet q → B q := fun q h => keeps.gives [] q (quiet [] p q start h)
  have asked := Pass.Quiet.tick (p := p) .refl (p.tick + 1)
  rw [body, wp_bind, wp_ask, wp_bind]
  apply wp_returns
  · intro surfaces found
    rw [wp_bind]
    refine wp_mono (wp_identityBracket_quiet asked) ?_ fun _ => raised
    intro bracket q h
    rw [wp_bind]
    refine wp_mono (wp_startBracket_quiet h) ?_ fun _ => raised
    intro _ q h
    rw [wp_bind]
    refine wp_mono (keeps.wp_loop surfaces (quiet [] p q start h)) ?_ fun _ _ h => h
    intro _ q holds
    rw [wp_bind]
    refine wp_mono (wp_settleBracket holds (quiet _) (identified _) (keeps.gives _) (said _)) ?_
      fun _ _ h => h
    intro _ q holds
    refine wp_mono (mark surfaces q holds) ?_ fun _ _ h => h
    exact fun _ q done => ⟨p.tick, surfaces, found, done⟩
  · exact fun _ _ => raised _ asked

end Ends

end Hx.Scan
