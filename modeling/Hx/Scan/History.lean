import Hx.Scan.Wide

/-!
# Histories of passes

What a pass leaves is what the next one is called on. Where every pass files what it draws
and looks wide, no finding is retired that a surface it was ever drawn on was not looked at
for.
-/

namespace Hx.Scan

open Hx.Checks Hx.Library Hx.Python Hx.Store Prog

/-- What a call leaves, whether it returns or raises. -/
def after (e : Env) (st : Engagement) : Pass := (run e (Pass.begin st)).2

/-- `P` of every pass, of what was drawn before it and of the store it is called on. -/
def History (P : List Draw → Env → Engagement → Prop) :
    List Draw → Engagement → List Env → Prop
  | _, _, [] => True
  | draws, st, e :: es =>
      P draws e st ∧ History P (drawsOf (after e st).log ++ draws) (after e st).store es

/-- A verdict on the surface considered the type. -/
def LooksAt (log : List Event) (surface check type : String) : Prop :=
  ∃ row s c v next, .returned row s c v next ∈ log ∧ s.id = surface ∧ c.id = check ∧
    ∃ t ∈ v.considered, t.val = type

/-- Who looks at the surface that drew a finding last, and does not draw it, looks at every
surface that ever drew it. -/
def LooksWide (draws : List Draw) (log : List Event) : Prop :=
  ∀ d ∈ draws, ∀ last, lastDraw draws d.key = some last →
    (∀ d' ∈ drawsOf log, d'.key ≠ d.key) → LooksAt log last.surface last.check d.type →
      ∀ d' ∈ draws, d'.key = d.key → LooksAt log d'.surface last.check d.type

/-- What is asked of a pass: it files what it draws, and it looks wide. -/
def Wide (draws : List Draw) (e : Env) (st : Engagement) : Prop :=
  Filed e (after e st).log ∧ LooksWide draws (after e st).log

/-- What a pass says of the findings that stand for several surfaces. -/
structure Sound (draws : List Draw) (e : Env) (st : Engagement) : Prop where
  answers : ∀ o ∈ answersOf (after e st).store (st.handedBack .scan (e.now 0)),
    o.observed = false → o ∈ answersOf st (st.handedBack .scan (e.now 0)) ∨
      ∃ f, .retired f ∈ (after e st).log ∧ o = gone (st.handedBack .scan (e.now 0)) f
  looked : ∀ f, .retired f ∈ (after e st).log → ∃ check type, f.check = some check ∧
    f.issueTypeId = some type ∧ ∀ d ∈ drawsOf (after e st).log ++ draws, d.key = f.key →
      LooksAt (after e st).log d.surface check type
  redrawn : ∀ d ∈ drawsOf (after e st).log,
    (after e st).store.answer d.key (st.handedBack .scan (e.now 0)) = some true

/-! ## Ids -/

section Issued

variable {e : Env} {runId : Nat} {p q : Pass} {st : Engagement}

theorem issued_closeRow (issued : st.Issued) (id : Nat) (verdict : RowVerdict)
    (reason : Option String) (sent : Nat) : (st.closeRow id verdict reason sent).Issued := by
  refine ⟨issued.1, ?_⟩
  intro r mem
  obtain ⟨r', mem', rfl⟩ := List.mem_map.1 mem
  split
  · exact issued.2 r' mem'
  · exact issued.2 r' mem'

theorem issued_openRow (issued : st.Issued) (run : Nat) (surface check version : String) :
    (st.openRow run surface check version).2.Issued := by
  refine ⟨fun r mem => Nat.lt_succ_of_lt (issued.1 r mem), ?_⟩
  intro r mem
  rcases List.mem_append.1 mem with mem | mem
  · exact Nat.lt_succ_of_lt (issued.2 r mem)
  · rw [List.mem_singleton.1 mem]
    exact Nat.lt_succ_self _

theorem issued_rowKeeps (runId : Nat) (s : Surface) (c : Check) :
    RowKeeps runId s c fun p => p.store.Issued where
  like _ _ issued like := like.store_eq ▸ issued
  opened _ issued := issued_openRow issued _ _ _ _
  drove _ _ _ _ issued := issued
  returned _ _ _ _ issued := issued
  filed _ _ issued := issued
  skipped _ _ _ _ issued := issued_closeRow issued _ _ _ _
  spent _ issued := issued
  closed _ _ _ _ issued := issued_closeRow issued _ _ _ _

theorem issued_keeps (e : Env) (runId : Nat) :
    Keeps e runId (fun _ p => p.store.Issued) fun p => p.store.Issued where
  like _ _ _ issued like := like.store_eq ▸ issued
  gives _ _ issued := issued
  canary _ _ issued := wp_mono (wp_canaryIfDue_quiet .refl) (fun _ _ h => h.store_eq ▸ issued)
    fun _ _ h => h.store_eq ▸ issued
  counted _ _ issued := issued
  heartbeat _ _ at_ issued := issued_onRun issued _ _ (Rows.heartbeat_id at_)
  late l p s issued := by
    apply wp_mono (wp_skipRest (I := fun _ p => p.store.Issued)
      (B := fun p => p.store.Issued) _ _ _ _ issued)
    · rintro _ _ ⟨r, issued, rfl⟩
      exact issued
    · exact fun _ _ h => h
    · exact fun _ _ _ issued like => like.store_eq ▸ issued
    · exact fun _ _ _ issued => issued_closeRow (issued_openRow issued _ _ _ _) _ _ _ _
    · exact fun _ _ issued => issued
    · exact fun _ _ _ _ issued => issued_openRow issued _ _ _ _
  row _ _ _ s c issued _ ends := (issued_rowKeeps runId s c).ends issued ends
  breaks _ _ _ s c issued breaks := (issued_rowKeeps runId s c).breaks issued breaks

theorem wp_run_issued (issued : st.Issued) :
    wp (run e) (fun _ p => p.store.Issued) (fun _ p => p.store.Issued) (Pass.begin st) := by
  have closed : ∀ (st : Engagement) id at_ status reason, st.Issued →
      (st.closeRun id at_ status reason).Issued := fun _ _ at_ status reason issued =>
    issued_onRun issued _ _ (closeRun_id at_ status reason)
  apply wp_run (Q := fun p => p.store.Issued) (B := fun p => p.store.Issued) issued
  · exact issued
  · exact fun _ _ issued => issued
  · intro q begun
    refine wp_mono (wp_body (Q := fun _ p => p.store.Issued) (issued_keeps e _) begun.issued
      ?_ ?_ ?_ ?_) (fun _ _ ⟨_, _, _, h⟩ => h) fun _ _ h => h
    · exact fun l q r issued h => h.store_eq ▸ issued
    · exact fun l q b state issued => issued_onRun issued _ _ fun _ => rfl
    · exact fun l q state t issued => issued
    · intro surfaces q issued
      apply wp_markUnobserved
      · exact fun _ => issued
      · rw [retire_eq]
        exact issued
      · exact fun _ => issued
  · exact fun q at_ reason t issued => closed _ _ _ _ _ issued
  · exact fun q t issued => issued
  · intro exc q issued
    apply wp_halt issued
    · exact fun q b issued => issued_onRun issued _ _ fun _ => rfl
    · exact fun q t issued => issued
    · exact fun q at_ reason t issued => closed _ _ _ _ _ issued
    · exact fun q t issued => issued

end Issued

/-! ## One pass -/

section Pass

variable {e : Env} {draws : List Draw} {st : Engagement}

/-- What a call ensures both ways, it leaves. -/
theorem after_of_wp {I : Pass → Prop}
    (h : wp (run e) (fun _ => I) (fun _ => I) (Pass.begin st)) : I (after e st) := by
  rw [wp] at h
  rw [after]
  cases result : (run e (Pass.begin st)).1 with
  | ok a =>
      rw [result] at h
      exact h
  | error exc =>
      rw [result] at h
      exact h

theorem filing_after (issued : st.Issued) (remembered : Remembered draws st)
    (filed : Filed e (after e st).log) :
    Filing draws (st.handedBack .scan (e.now 0)) (after e st) :=
  after_of_wp (wp_run_files issued remembered) filed

/-- A pass that looks wide says the truth of what it retires. -/
theorem Wide.sound (issued : st.Issued) (remembered : Remembered draws st)
    (wide : Wide draws e st) : Sound draws e st := by
  obtain ⟨filed, looksWide⟩ := wide
  have retirement := after_of_wp (wp_run_retirement (e := e) issued)
  have filing := filing_after issued remembered filed
  refine ⟨retirement.answers, ?_, filing.answered⟩
  intro f retired
  obtain ⟨⟨o, ⟨row, s, c, v, next, returned, rfl, _⟩, surface, check, ⟨t, among, type⟩, _⟩,
    undrawn⟩ := retirement.licensed filed f retired
  have unseen : ∀ d ∈ drawsOf (after e st).log, d.key ≠ f.key := by
    intro d mem
    obtain ⟨row, s, c, v, next, returned, candidate, among, rfl⟩ := mem_drawsOf mem
    exact undrawn row s c v next returned candidate among
  have earlier : ∀ d ∈ drawsOf (after e st).log ++ draws, d.key = f.key → d ∈ draws :=
    fun d mem same => (List.mem_append.1 mem).resolve_left fun new => unseen d new same
  obtain ⟨last, found, ofSurface, ofCheck, d, mem, same, ofType⟩ :=
    filing.remembered f (retirement.onFile f retired)
  have before : lastDraw draws f.key = some last := by
    rw [lastDraw, List.find?_append, Option.or_eq_some_iff] at found
    rcases found with new | ⟨_, old⟩
    · have same : decide (last.key = f.key) = true :=
        List.find?_some (p := fun d : Draw => decide (d.key = f.key)) new
      exact absurd (of_decide_eq_true same) (unseen last (List.mem_of_find?_eq_some new))
    · exact old
  have looks : LooksAt (after e st).log last.surface last.check d.type := by
    refine ⟨row, s, c, v, next, returned, ?_, ?_, t, among, ?_⟩
    · exact Option.some.inj (surface.symm.trans ofSurface)
    · exact Option.some.inj (check.symm.trans ofCheck)
    · exact Option.some.inj (type.symm.trans ofType)
  refine ⟨last.check, d.type, ofCheck, ofType, ?_⟩
  intro d' mem' same'
  refine looksWide d (earlier d mem same) last ?_ ?_ looks d' (earlier d' mem' same') ?_
  · rw [same]
    exact before
  · rw [same]
    exact unseen
  · rw [same, same']

/-! ## Every history -/

/-- In a history whose passes all look wide, a finding is retired in a pass only if its
check looked, in that pass, at every surface that ever drew it, and one that is drawn again
is on file as observed. -/
theorem wide_history {es : List Env} (issued : st.Issued) (remembered : Remembered draws st)
    (wide : History Wide draws st es) : History Sound draws st es := by
  induction es generalizing draws st with
  | nil => exact trivial
  | cons e es ih =>
      obtain ⟨now, later⟩ := wide
      have filing := filing_after issued remembered now.1
      exact ⟨now.sound issued remembered,
        ih (after_of_wp (wp_run_issued issued)) filing.remembered later⟩

/-- What holds of no earlier draw holds of every history from a store with no findings. -/
theorem retired_widely {es : List Env} (issued : st.Issued) (none_ : st.findings = [])
    (wide : History Wide [] st es) : History Sound [] st es := by
  have remembered : Remembered [] st := by
    rw [Remembered, none_]
    exact fun _ mem => absurd mem List.not_mem_nil
  exact wide_history issued remembered wide

end Pass

/-! ## A narrow look -/

def account : Surface := ⟨"account", "GET", ⟨"http", "shop", 80⟩, "/account", none⟩

/-- One cookie is one finding of the host, whatever surface sets it. -/
def cookie : Candidate := { leak with scopeLevel := .host }

/-- The surfaces of a pass, and what the check says of each. -/
def visiting (surfaces : List Surface) (at_ : Int) (v : Returned) : Env :=
  { looking v with surfaces := fun _ => .ok surfaces, now := fun _ => at_ }

/-- Both surfaces set the cookie. -/
def setting : Env := visiting [front, account] 60000000
  (.ofVerdict (.finding [cookie] (List.cons_ne_nil _ _) [cookie.issueTypeId]))

/-- Hours later the check looks at one of them. -/
def narrow : Env := visiting [account] 60000000000 (.ofVerdict (.clean [cookie.issueTypeId]))

/-- The finding is retired, and the other surface was not looked at. -/
theorem narrow_retired : keyOf front idleCheck cookie = keyOf account idleCheck cookie ∧
    (run setting (Pass.begin {})).1 = .ok () ∧
    (run narrow (Pass.begin (after setting {}).store)).1 = .ok () ∧
    (answersOf (after narrow (after setting {}).store).store 3).map (·.observed) = [false] ∧
    ¬ History Sound [] {} [setting, narrow] := by
  refine ⟨rfl, rfl, rfl, rfl, ?_⟩
  rintro ⟨_, sound, _⟩
  have log : (after narrow (after setting {}).store).log =
      [.retired { Engagement.newFinding (keyOf front idleCheck cookie) cookie 0 "front" "shop"
          "idle" with surface := some "account" },
        .returned 4 account idleCheck (.ofVerdict (.clean [cookie.issueTypeId])) 9] := rfl
  have drew : drawsOf (after setting {}).log =
      [drawOf account idleCheck cookie, drawOf front idleCheck cookie] := rfl
  obtain ⟨check, type, _, _, looked⟩ := sound.looked _ (log ▸ List.mem_cons_self)
  have mem : drawOf front idleCheck cookie ∈
      drawsOf (after narrow (after setting {}).store).log ++
        (drawsOf (after setting {}).log ++ []) := by
    rw [drew]
    exact List.mem_append_right _ (List.mem_cons_of_mem _ List.mem_cons_self)
  obtain ⟨row, s, c, v, next, returned, surface, _⟩ := looked _ mem rfl
  rw [log] at returned
  rcases List.mem_cons.1 returned with same | returned
  · contradiction
  · cases List.mem_singleton.1 returned
    contradiction

/-- Hours later the check looks at both. -/
def thorough : Env := visiting [front, account] 60000000000 (.ofVerdict (.clean [cookie.issueTypeId]))

theorem filed_of_clean {e : Env} {log : List Event} (types : List IssueType)
    (clean : ∀ row s c v next, .returned row s c v next ∈ log →
      v = .ofVerdict (.clean types)) : Filed e log := by
  intro row s c v next mem
  rw [clean row s c v next mem]
  exact ⟨constructed_ofVerdict _, fun found => VerdictState.noConfusion found⟩

/-- The finding is retired after a look at every surface that drew it. -/
theorem thorough_retired : History Wide [] {} [setting, thorough] ∧
    History Sound [] {} [setting, thorough] ∧
    (answersOf (after thorough (after setting {}).store).store 3).map (·.observed) = [false] := by
  have first : (after setting {}).log =
      [.returned 2 account idleCheck (.ofVerdict (.finding [cookie] (List.cons_ne_nil _ _)
          [cookie.issueTypeId])) 17,
        .returned 1 front idleCheck (.ofVerdict (.finding [cookie] (List.cons_ne_nil _ _)
          [cookie.issueTypeId])) 9] := rfl
  have second : (after thorough (after setting {}).store).log =
      [.retired { Engagement.newFinding (keyOf front idleCheck cookie) cookie 0 "front" "shop"
          "idle" with surface := some "account" },
        .returned 5 account idleCheck (.ofVerdict (.clean [cookie.issueTypeId])) 16,
        .returned 4 front idleCheck (.ofVerdict (.clean [cookie.issueTypeId])) 9] := rfl
  have wide : History Wide [] {} [setting, thorough] := by
    refine ⟨⟨?_, fun _ mem => absurd mem List.not_mem_nil⟩, ⟨?_, ?_⟩, trivial⟩
    · intro row s c v next mem
      rw [first] at mem
      rcases List.mem_cons.1 mem with same | mem
      · cases same
        exact ⟨constructed_ofVerdict _, fun _ _ _ => rfl⟩
      · cases List.mem_singleton.1 mem
        exact ⟨constructed_ofVerdict _, fun _ _ _ => rfl⟩
    · apply filed_of_clean [cookie.issueTypeId]
      intro row s c v next mem
      rw [second] at mem
      rcases List.mem_cons.1 mem with same | mem
      · contradiction
      rcases List.mem_cons.1 mem with same | mem
      · cases same
        rfl
      · cases List.mem_singleton.1 mem
        rfl
    · have drew : drawsOf (after setting {}).log ++ [] =
          [drawOf account idleCheck cookie, drawOf front idleCheck cookie] := rfl
      intro d mem last found _ _ d' mem' _
      rw [drew] at mem mem' found
      have type : d.type = "leak" := by
        rcases List.mem_cons.1 mem with rfl | mem
        · rfl
        · rw [List.mem_singleton.1 mem]
          rfl
      have check : last.check = "idle" := by
        rcases List.mem_cons.1 (List.mem_of_find?_eq_some found) with rfl | mem
        · rfl
        · rw [List.mem_singleton.1 mem]
          rfl
      rw [type, check, second]
      rcases List.mem_cons.1 mem' with rfl | mem'
      · exact ⟨5, account, idleCheck, _, 16, List.mem_cons_of_mem _ List.mem_cons_self, rfl, rfl,
          cookie.issueTypeId, List.mem_singleton.2 rfl, rfl⟩
      · rw [List.mem_singleton.1 mem']
        exact ⟨4, front, idleCheck, _, 9,
          List.mem_cons_of_mem _ (List.mem_cons_of_mem _ List.mem_cons_self), rfl, rfl,
          cookie.issueTypeId, List.mem_singleton.2 rfl, rfl⟩
  exact ⟨wide, retired_widely issued_new rfl wide, rfl⟩

end Hx.Scan
