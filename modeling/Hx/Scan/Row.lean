import Hx.Scan.Run

/-!
# What a row can come to

A row that is opened is worked on: a check may be driven through a sender, may return a
verdict, and some of the verdict's findings are written. Then it closes, or the run
raises and leaves it `pending`. `RowEnd` and `RowBreak` say so once, for every check and
every statement that fails; what was only read on the way is left open.
-/

namespace Hx.Scan

open Hx.Checks Hx.Library Hx.Python Hx.Store Prog

/-! ## What was only read -/

/-- `q` is `p`, up to what was asked and what was read once per surface. -/
def Pass.Like (p q : Pass) : Prop :=
  ∃ t x i, q = { p with tick := t, exemplar := x, insertions := i }

namespace Pass.Like

variable {p q r : Pass}

theorem refl (p : Pass) : p.Like p := ⟨p.tick, p.exemplar, p.insertions, rfl⟩

theorem trans (h : p.Like q) (h' : q.Like r) : p.Like r := by
  obtain ⟨_, _, _, rfl⟩ := h
  obtain ⟨t, x, i, rfl⟩ := h'
  exact ⟨t, x, i, rfl⟩

theorem tick (p : Pass) (t : Nat) : p.Like { p with tick := t } := ⟨t, p.exemplar, p.insertions, rfl⟩

theorem store (h : p.Like q) (f : Engagement → Engagement) :
    Like { p with store := f p.store } { q with store := f q.store } := by
  obtain ⟨t, x, i, rfl⟩ := h
  exact ⟨t, x, i, rfl⟩

theorem summary (h : p.Like q) (f : Summary → Summary) :
    Like { p with summary := f p.summary } { q with summary := f q.summary } := by
  obtain ⟨t, x, i, rfl⟩ := h
  exact ⟨t, x, i, rfl⟩

theorem returned (h : p.Like q) (row : Nat) (s : Surface) (c : Check) (v : Returned) (next : Nat) :
    (p.returned row s c v next).Like (q.returned row s c v next) := by
  obtain ⟨t, x, i, rfl⟩ := h
  exact ⟨t, x, i, rfl⟩

theorem saw (h : p.Like q) (key : String) : (p.saw key).Like (q.saw key) := by
  obtain ⟨t, x, i, rfl⟩ := h
  exact ⟨t, x, i, rfl⟩

theorem spent (h : p.Like q) : p.spent.Like q.spent := by
  obtain ⟨t, x, i, rfl⟩ := h
  exact ⟨t, x, i, rfl⟩

theorem sent_eq (h : p.Like q) : q.sent = p.sent := by
  obtain ⟨t, x, i, rfl⟩ := h
  rfl

theorem store_eq (h : p.Like q) : q.store = p.store := by
  obtain ⟨t, x, i, rfl⟩ := h
  rfl

end Pass.Like

/-! ## Statements -/

section Statements

variable {e : Env} {p : Pass}

theorem wp_ask {α : Type} {f : Nat → α} {Q : α → Pass → Prop} {E : Exc → Pass → Prop} :
    wp (ask f) Q E p ↔ Q (f p.tick) { p with tick := p.tick + 1 } := Iff.rfl

theorem wp_orRaise {o : Option Exc} {Q : Unit → Pass → Prop} {E : Exc → Pass → Prop}
    (returns : Q () p) (raises : ∀ exc, E exc p) : wp (orRaise o) Q E p := by
  cases o with
  | none => exact returns
  | some exc => exact raises exc

theorem wp_returns {α : Type} {r : Except Exc α} {Q : α → Pass → Prop} {E : Exc → Pass → Prop}
    (returns : ∀ a, r = .ok a → Q a p) (raises : ∀ exc, r = .error exc → E exc p) :
    wp (Scan.returns r) Q E p := by
  cases r with
  | ok a => exact returns a rfl
  | error exc => exact raises exc rfl

/-- What a write comes to is up to the fault the environment has for it. -/
theorem wp_write_iff {f : Engagement → Engagement} {Q : Unit → Pass → Prop}
    {E : Exc → Pass → Prop} : wp (write e f) Q E p ↔
      (e.fault p.tick).elim (Q () { p with store := f p.store, tick := p.tick + 1 })
        fun exc => E exc { p with tick := p.tick + 1 } := by
  rw [write, wp_bind, wp_ask, wp_bind]
  cases e.fault p.tick with
  | none => exact Iff.rfl
  | some exc => exact Iff.rfl

/-- A write is written, or it raises. -/
theorem wp_write {f : Engagement → Engagement} {Q : Unit → Pass → Prop} {E : Exc → Pass → Prop}
    (written : Q () { p with store := f p.store, tick := p.tick + 1 })
    (raises : ∀ exc, E exc { p with tick := p.tick + 1 }) : wp (write e f) Q E p := by
  rw [wp_write_iff]
  cases e.fault p.tick with
  | none => exact written
  | some exc => exact raises exc

theorem wp_writeId_iff {f : Engagement → Nat × Engagement} {Q : Nat → Pass → Prop}
    {E : Exc → Pass → Prop} : wp (writeId e f) Q E p ↔
      (e.fault p.tick).elim
        (Q (f p.store).1 { p with store := (f p.store).2, tick := p.tick + 1 })
        fun exc => E exc { p with tick := p.tick + 1 } := by
  rw [writeId, wp_bind, wp_ask, wp_bind]
  cases e.fault p.tick with
  | none => exact Iff.rfl
  | some exc => exact Iff.rfl

theorem wp_writeId {f : Engagement → Nat × Engagement} {Q : Nat → Pass → Prop}
    {E : Exc → Pass → Prop}
    (written : Q (f p.store).1 { p with store := (f p.store).2, tick := p.tick + 1 })
    (raises : ∀ exc, E exc { p with tick := p.tick + 1 }) : wp (writeId e f) Q E p := by
  rw [wp_writeId_iff]
  cases e.fault p.tick with
  | none => exact written
  | some exc => exact raises exc

theorem wp_skip {row : Nat} {key reason : String} :
    wp (skip e row key reason) (fun _ q => (p.skipped row key reason).Like q)
      (fun _ q => p.Like q) p := by
  rw [skip, wp_bind, closeRow]
  apply wp_write
  · rw [summarise, wp_modify]
    exact .tick _ _
  · exact fun _ => .tick _ _

end Statements

/-! ## Work -/

/-- What was done on a row before it closed; `next` is the question the first finding of
the verdict asks. -/
structure Work where
  drove : Option (Nat × Tally) := none
  verdict : Option Returned := none
  next : Nat := 0
  written : List Candidate := []

/-- One finding was written. -/
def Pass.filed (p : Pass) (runId : Nat) (s : Surface) (c : Check) (candidate : Candidate) : Pass :=
  Pass.saw { p with store := file runId s c candidate p.store } (keyOf s c candidate)

namespace Work

def driven (w : Work) (row : Nat) (p : Pass) : Pass :=
  w.drove.elim p fun d => p.drove row d.1 d.2

def accepted (w : Work) (row : Nat) (s : Surface) (c : Check) (p : Pass) : Pass :=
  w.verdict.elim p fun v => p.returned row s c v w.next

/-- What is there after the work. -/
def apply (w : Work) (runId row : Nat) (s : Surface) (c : Check) (p : Pass) : Pass :=
  w.written.foldl (fun p candidate => p.filed runId s c candidate)
    (w.accepted row s c (w.driven row p))

/-- Everything a verdict asks for was done. -/
def Complete (w : Work) (v : Returned) : Prop :=
  w.verdict = some v ∧ w.written = if v.state = .finding then v.candidates else []

/-- There was no verdict, or one of its findings could not be written. -/
def Failed (e : Env) (w : Work) : Prop :=
  (w.verdict = none ∧ w.written = []) ∨
  ∃ v candidate, w.verdict = some v ∧ v.state = .finding ∧
    w.written ++ [candidate] <+: v.candidates ∧ e.fault (w.next + w.written.length) ≠ none

end Work

section Handle

variable {e : Env} {p : Pass} {runId row : Nat} {s : Surface} {exchanges : List ExchangeRow}
  {c : Check}

theorem Pass.Like.filed {q : Pass} (h : p.Like q) (candidate : Candidate) :
    (p.filed runId s c candidate).Like (q.filed runId s c candidate) :=
  (h.store _).saw _

theorem Pass.Like.foldl_filed {q : Pass} (written : List Candidate) (h : p.Like q) :
    Pass.Like (written.foldl (fun p candidate => p.filed runId s c candidate) p)
      (written.foldl (fun p candidate => p.filed runId s c candidate) q) := by
  induction written generalizing p q with
  | nil => exact h
  | cons candidate written ih => exact ih (h.filed candidate)

/-- The findings of a verdict are written in their order, up to one that is not. -/
theorem wp_accept {v : Returned} :
    wp (accept e runId row s c v)
      (fun _ q => Pass.Like ((if v.state = .finding then v.candidates else []).foldl
        (fun p candidate => p.filed runId s c candidate) (p.returned row s c v p.tick)) q)
      (fun _ q => v.state = .finding ∧ ∃ done candidate, done ++ [candidate] <+: v.candidates ∧
        e.fault (p.tick + done.length) ≠ none ∧
        Pass.Like (done.foldl (fun p candidate => p.filed runId s c candidate)
          (p.returned row s c v p.tick)) q) p := by
  rw [accept, wp_bind, wp_modify]
  by_cases found : v.state = .finding
  · rw [if_pos found, if_pos found]
    -- every finding asks one question
    refine wp_mono (wp_forEach (I := fun done q => q.tick = p.tick + done.length ∧
      Pass.Like (done.foldl (fun p candidate => p.filed runId s c candidate)
        (p.returned row s c v p.tick)) q) ?_ _ ⟨rfl, .refl _⟩) (fun _ _ h => h.2) fun _ _ h => h
    rintro done candidate q within ⟨tick, like⟩
    rw [wp_bind, writeFinding, wp_bind, wp_write_iff]
    cases fault : e.fault q.tick with
    | none =>
        rw [Option.elim_none, wp_pure, wp_modify, List.foldl_append, List.length_append]
        exact ⟨congrArg (· + 1) tick, (like.filed candidate).trans (.saw (.tick _ _) _)⟩
    | some exc =>
        refine ⟨found, done, candidate, within, ?_, like.trans (.tick _ _)⟩
        rw [← tick, fault]
        exact nofun
  · rw [if_neg found, if_neg found]
    exact .refl _

/-- What a call leaves behind: a row that is skipped, or what its check was driven to. -/
def CallEnds (p : Pass) (row : Nat) (ended : Option Ended) (q : Pass) : Prop :=
  ended.elim (∃ key reason, (p.skipped row key reason).Like q) fun _ =>
    ∃ w : Work, w.verdict = none ∧ w.written = [] ∧ (w.driven row p).Like q

theorem wp_exemplarRequest :
    wp (exemplarRequest e s exchanges) (fun _ q => p.Like q) (fun _ q => p.Like q) p := by
  rw [exemplarRequest, wp_bind, wp_gets]
  cases p.exemplar with
  | some held => exact .refl _
  | none =>
      simp only
      rw [wp_bind]
      have read : wp (readExemplar e s exchanges) (fun _ q => p.Like q) (fun _ q => p.Like q) p := by
        rw [readExemplar]
        split
        · exact .refl _
        · split
          · exact .refl _
          · split
            · exact .refl _
            · rw [wp_bind, wp_ask]
              apply wp_returns
              · exact fun _ _ => .tick _ _
              · exact fun _ _ => .tick _ _
      apply wp_mono read
      · intro x q like
        rw [wp_bind, wp_modify, wp_pure]
        exact like.trans ⟨q.tick, some x, q.insertions, rfl⟩
      · exact fun _ _ like => like

theorem wp_declaredPoints {request : Option Bytes} :
    wp (declaredPoints e request s c) (fun _ q => p.Like q) (fun _ q => p.Like q) p := by
  rw [declaredPoints]
  split
  · exact .refl _
  · rw [wp_bind, wp_gets]
    cases p.insertions with
    | some points => exact .refl _
    | none =>
        simp only
        rw [wp_bind]
        apply wp_returns
        · intro points _
          rw [wp_bind, wp_modify, wp_pure]
          exact ⟨p.tick, p.exemplar, some points, rfl⟩
        · exact fun _ _ => .refl _

theorem Pass.Like.drove {q : Pass} (h : p.Like q) (sent : Nat) (refused : Tally) :
    (p.drove row sent refused).Like (q.drove row sent refused) := by
  obtain ⟨t, x, i, rfl⟩ := h
  exact ⟨t, x, i, rfl⟩

theorem Pass.Like.skipped {q : Pass} (h : p.Like q) (key reason : String) :
    (p.skipped row key reason).Like (q.skipped row key reason) := by
  obtain ⟨t, x, i, rfl⟩ := h
  exact ⟨t, x, i, rfl⟩

theorem Pass.Like.apply {q : Pass} (h : p.Like q) (w : Work) :
    (w.apply runId row s c p).Like (w.apply runId row s c q) := by
  have driven : (w.driven row p).Like (w.driven row q) := by
    rw [Work.driven, Work.driven]
    cases w.drove with
    | none => exact h
    | some d => exact h.drove _ _
  rw [Work.apply, Work.apply, Work.accepted, Work.accepted]
  cases w.verdict with
  | none => exact driven.foldl_filed _
  | some v => exact (driven.returned _ _ _ _ _).foldl_filed _

theorem Pass.Like.closed {q : Pass} (h : p.Like q) (row : Nat) (verdict : RowVerdict)
    (reason : Option String) : (p.closed row verdict reason).Like (q.closed row verdict reason) := by
  obtain ⟨t, x, i, rfl⟩ := h
  exact ⟨t, x, i, rfl⟩

theorem wp_skipped {q : Pass} {key reason : String} (like : p.Like q) :
    wp (do skip e row key reason; pure none) (CallEnds p row) (fun _ q => p.Like q) q := by
  rw [wp_bind]
  apply wp_mono wp_skip
  · intro _ r skipped
    exact ⟨key, reason, (like.skipped key reason).trans skipped⟩
  · exact fun _ _ raised => like.trans raised

theorem wp_probePath {request : Option Bytes} :
    wp (probePath e request) (fun _ q => p.Like q) (fun _ q => p.Like q) p := by
  cases request with
  | none => exact .refl _
  | some request =>
      apply wp_returns
      · exact fun _ _ => .refl _
      · exact fun _ _ => .refl _

theorem wp_drive {usable : List Insertion} {path : String} :
    wp (drive e row s c usable path)
      (fun _ q => ∃ d : Nat × Tally, (p.drove row d.1 d.2).Like q) (fun _ q => p.Like q) p := by
  rw [drive, wp_bind, wp_gets, wp_bind, wp_ask, wp_bind, wp_modify, wp_pure]
  exact ⟨(_, _), .drove (.tick _ _) _ _⟩

theorem wp_probe :
    wp (probe e row s exchanges c) (CallEnds p row) (fun _ q => p.Like q) p := by
  rw [probe]
  split
  · exact wp_skipped (.refl p)
  split
  · exact wp_skipped (.refl p)
  split
  · exact wp_skipped (.refl p)
  rw [wp_bind]
  refine wp_mono wp_exemplarRequest ?_ fun _ _ like => like
  intro request q like
  rw [wp_bind]
  refine wp_mono wp_probePath ?_ fun _ _ next => like.trans next
  intro path r next
  replace like := like.trans next
  cases path with
  | none => exact wp_skipped like
  | some path =>
      simp only
      rw [wp_bind]
      refine wp_mono wp_declaredPoints ?_ fun _ _ next => like.trans next
      intro declared t next
      replace like := like.trans next
      split
      · exact wp_skipped like
      split
      · exact wp_skipped like
      rw [wp_bind]
      refine wp_mono wp_drive ?_ fun _ _ next => like.trans next
      rintro ended u ⟨d, drove⟩
      rw [wp_pure]
      exact ⟨⟨some d, none, 0, []⟩, rfl, rfl, (like.drove _ _).trans drove⟩

theorem wp_call : wp (call e row s exchanges c) (CallEnds p row) (fun _ q => p.Like q) p := by
  rw [call]
  cases c.hook with
  | probes => exact wp_probe
  | onSurface =>
      simp only
      rw [wp_bind, wp_ask, wp_pure]
      exact ⟨{}, rfl, rfl, .tick _ _⟩
  | neither => exact .refl _

/-- How the `try` of a row ends, if nothing is raised: the row is closed already, or all
its verdict asks for is done. -/
def HandleEnds (runId row : Nat) (s : Surface) (c : Check) (p : Pass) (v : Option Returned)
    (q : Pass) : Prop :=
  v.elim (∃ key reason, (p.skipped row key reason).Like q) fun v =>
    ∃ w : Work, w.Complete v ∧ (w.apply runId row s c p).Like q

theorem wp_handle :
    wp (handle e runId row s exchanges c) (HandleEnds runId row s c p)
      (fun _ q => ∃ w : Work, w.Failed e ∧ (w.apply runId row s c p).Like q) p := by
  rw [handle, wp_bind]
  refine wp_mono wp_call ?_ fun _ q like => ⟨{}, .inl ⟨rfl, rfl⟩, like⟩
  intro ended q ends
  cases ended with
  | none => exact ends
  | some ended =>
      obtain ⟨w, verdict, written, like⟩ := ends
      have failed : ∃ w : Work, w.Failed e ∧ (w.apply runId row s c p).Like q := by
        refine ⟨w, .inl ⟨verdict, written⟩, ?_⟩
        rw [Work.apply, Work.accepted, verdict, written]
        exact like
      cases ended with
      | raised exc => exact failed
      | other text => exact failed
      | verdict v =>
          simp only
          rw [wp_bind]
          apply wp_mono wp_accept
          · intro _ r accepted
            rw [wp_pure]
            refine ⟨⟨w.drove, some v, q.tick, _⟩, ⟨rfl, rfl⟩, ?_⟩
            refine .trans ?_ accepted
            exact Pass.Like.foldl_filed _ (like.returned _ _ _ _ _)
          · rintro _ r ⟨found, done, candidate, within, fault, accepted⟩
            refine ⟨⟨w.drove, some v, q.tick, done⟩,
              .inr ⟨v, candidate, rfl, found, within, fault⟩, ?_⟩
            refine .trans ?_ accepted
            exact Pass.Like.foldl_filed _ (like.returned _ _ _ _ _)

/-! ## The row as a whole -/

/-- How a row ends that is closed: skipped, by its verdict, or by what was raised. -/
inductive RowEnd (e : Env) (runId : Nat) (s : Surface) (c : Check) (p q : Pass) : Prop where
  | skipped (key reason : String)
      (like : ((p.opened runId s c).skipped p.store.nextId key reason).Like q)
  | closed (w : Work) (v : Returned) (complete : w.Complete v)
      (like : Pass.Like ((w.apply runId p.store.nextId s c (p.opened runId s c)).spent.closed
        p.store.nextId v.state.row v.reason) q)
  | failed (w : Work) (verdict : RowVerdict) (reason : String) (failed : w.Failed e)
      (word : verdict = .inconclusive ∨ verdict = .error)
      (like : Pass.Like ((w.apply runId p.store.nextId s c (p.opened runId s c)).spent.closed
        p.store.nextId verdict reason) q)

/-- How a row stops when the run is raised out of it. -/
inductive RowBreak (e : Env) (runId : Nat) (s : Surface) (c : Check) (p q : Pass) : Prop where
  | unopened (like : p.Like q)
  | pending (w : Work) (failed : w.Failed e)
      (like : (w.apply runId p.store.nextId s c (p.opened runId s c)).Like q)
  | unclosed (w : Work) (ended : (∃ v, w.Complete v) ∨ w.Failed e)
      (like : (w.apply runId p.store.nextId s c (p.opened runId s c)).spent.Like q)

theorem wp_close {verdict : RowVerdict} {reason : Option String} :
    wp (do let sent ← spend; closeRow e row verdict reason sent)
      (fun _ q => (p.spent.closed row verdict reason).Like q) (fun _ q => p.spent.Like q) p := by
  rw [wp_bind, spend, wp_bind, wp_modify, wp_gets, closeRow]
  apply wp_write
  · exact .tick _ _
  · exact fun _ => .tick _ _

theorem wp_rowTurn :
    wp (rowTurn e runId s exchanges c) (fun _ q => RowEnd e runId s c p q)
      (fun _ q => RowBreak e runId s c p q) p := by
  rw [rowTurn, wp_bind, openRow]
  apply wp_writeId
  · rw [wp_bind, wp_modify, wp_bind, wp_attempt]
    have opened : (p.opened runId s c).Like { p.opened runId s c with tick := p.tick + 1 } :=
      .tick _ _
    apply wp_mono wp_handle
    · intro v q ends
      cases v with
      | none =>
          obtain ⟨key, reason, like⟩ := ends
          exact .skipped key reason ((opened.skipped key reason).trans like)
      | some v =>
          obtain ⟨w, complete, like⟩ := ends
          replace like := (opened.apply w).trans like
          apply wp_mono wp_close
          · exact fun _ r closed => .closed w v complete ((like.spent.closed _ _ _).trans closed)
          · exact fun _ r raised => .unclosed w (.inl ⟨v, complete⟩) (like.spent.trans raised)
    · rintro exc q ⟨w, failed, like⟩
      replace like := (opened.apply w).trans like
      have closed {verdict : RowVerdict} {reason : String}
          (word : verdict = .inconclusive ∨ verdict = .error) :
          wp (do let sent ← spend; closeRow e p.store.nextId verdict reason sent)
            (fun _ q => RowEnd e runId s c p q) (fun _ q => RowBreak e runId s c p q) q := by
        apply wp_mono wp_close
        · exact fun _ r closed =>
            .failed w verdict reason failed word ((like.spent.closed _ _ _).trans closed)
        · exact fun _ r raised => .unclosed w (.inr failed) (like.spent.trans raised)
      cases exc with
      | refused text => exact closed (.inl rfl)
      | interrupt type text => exact .pending w failed like
      | identityDead message stopReason => exact closed (.inr rfl)
      | identityError text => exact closed (.inr rfl)
      | exception type text => exact closed (.inr rfl)
  · exact fun _ => .unopened (.tick _ _)

end Handle

end Hx.Scan
