import Hx.Scan.Retired

/-!
# Findings that stand for several surfaces

A finding keeps the surface that drew it last, and the retirement looks at that one. Over
a history of passes: where no pass looks at the surface a finding was last drawn on and
leaves out another it was ever drawn on, what is retired was looked for everywhere.
-/

namespace Hx.Scan

open Hx.Checks Hx.Library Hx.Python Hx.Store Prog

/-! ## Draws -/

/-- A check returned a finding for a surface. -/
structure Draw where
  key : String
  surface : String
  check : String
  type : String

def drawOf (s : Surface) (c : Check) (candidate : Candidate) : Draw :=
  ⟨keyOf s c candidate, s.id, c.id, candidate.issueTypeId.val⟩

/-- The draws of a verdict, the last one first. -/
def verdictDraws (s : Surface) (c : Check) (v : Returned) : List Draw :=
  if v.state = .finding then (v.candidates.map (drawOf s c)).reverse else []

/-- The draws of a log, the last one first. -/
def drawsOf : List Event → List Draw
  | [] => []
  | .returned _ s c v _ :: log => verdictDraws s c v ++ drawsOf log
  | _ :: log => drawsOf log

def lastDraw (draws : List Draw) (key : String) : Option Draw := draws.find? fun d => d.key = key

/-- What a finding on file keeps of its draws. -/
def Remembers (draws : List Draw) (f : Finding) : Prop :=
  ∃ d, lastDraw draws f.key = some d ∧ f.surface = some d.surface ∧ f.check = some d.check ∧
    ∃ d' ∈ draws, d'.key = f.key ∧ f.issueTypeId = some d'.type

def Remembered (draws : List Draw) (st : Engagement) : Prop := ∀ f ∈ st.findings, Remembers draws f

/-- What was drawn is answered with `observed = 1`. -/
def Answered1 (draws : List Draw) (runId : Nat) (st : Engagement) : Prop :=
  ∀ d ∈ draws, st.answer d.key runId = some true

section Draws

variable {draws newer : List Draw} {runId : Nat} {s : Surface} {c : Check} {candidate : Candidate}
  {st : Engagement} {f : Finding}

theorem lastDraw_cons_self (d : Draw) : lastDraw (d :: draws) d.key = some d :=
  List.find?_cons_of_pos (decide_eq_true rfl)

theorem lastDraw_cons_of_ne {d : Draw} {key : String} (other : d.key ≠ key) :
    lastDraw (d :: draws) key = lastDraw draws key := by
  refine List.find?_cons_of_neg ?_
  rw [decide_eq_false other]
  exact nofun

theorem Remembers.cons_of_ne {d : Draw} (remembers : Remembers draws f) (other : d.key ≠ f.key) :
    Remembers (d :: draws) f := by
  obtain ⟨last, same, surface, check, d', mem, type⟩ := remembers
  exact ⟨last, (lastDraw_cons_of_ne other).trans same, surface, check, d',
    List.mem_cons_of_mem _ mem, type⟩

/-- A write of a finding is remembered. -/
theorem Remembered.file (remembered : Remembered draws st) :
    Remembered (drawOf s c candidate :: draws) (file runId s c candidate st) := by
  have findings : (Scan.file runId s c candidate st).findings =
      (st.upsertFinding (keyOf s c candidate) candidate runId s.id s.origin.host c.id).findings :=
    rfl
  intro f mem
  rw [findings, Engagement.upsertFinding] at mem
  simp only at mem
  split at mem
  · obtain ⟨old, among, rfl⟩ := List.mem_map.1 mem
    have remembers := remembered old among
    split
    · rename_i same
      obtain ⟨_, _, _, _, d', earlier, key, type⟩ := remembers
      refine ⟨drawOf s c candidate, ?_, rfl, rfl, d', List.mem_cons_of_mem _ earlier, key, type⟩
      have own : (Engagement.refresh old candidate runId s.id s.origin.host c.id).key =
        (drawOf s c candidate).key := same
      rw [own]
      exact lastDraw_cons_self _
    · rename_i other
      exact remembers.cons_of_ne fun same => other same.symm
  · rename_i new
    rcases List.mem_append.1 mem with mem | mem
    · refine (remembered f mem).cons_of_ne fun same => new ?_
      exact List.any_eq_true.2 ⟨f, mem, decide_eq_true same.symm⟩
    · rw [List.mem_singleton.1 mem]
      exact ⟨drawOf s c candidate, lastDraw_cons_self _, rfl, rfl, drawOf s c candidate,
        List.mem_cons_self, rfl, rfl⟩

theorem find?_filter_of_imp {α : Type} {l : List α} {P Q : α → Bool}
    (implies : ∀ x, Q x = true → P x = true) : (l.filter P).find? Q = l.find? Q := by
  induction l with
  | nil => rfl
  | cons x l ih =>
      cases kept : P x with
      | true => rw [List.filter_cons_of_pos kept, List.find?_cons, List.find?_cons, ih]
      | false =>
          have other : ¬ Q x = true := fun q => by
            rw [implies x q] at kept
            contradiction
          rw [List.filter_cons_of_neg (by rw [kept]; exact nofun), ih,
            List.find?_cons_of_neg other]

theorem answer_recordObservation (o : Observation) (key : String) :
    (st.recordObservation o).answer key runId =
      if o.finding = key ∧ o.run = runId then some o.observed else st.answer key runId := by
  rw [Engagement.answer, Engagement.recordObservation, List.find?_append]
  by_cases own : o.finding = key ∧ o.run = runId
  · obtain ⟨rfl, rfl⟩ := own
    have none_ : (st.observations.filter fun p => ¬ (p.finding = o.finding ∧ p.run = o.run)).find?
        (fun p => p.finding = o.finding ∧ p.run = o.run) = none := by
      rw [List.find?_eq_none]
      intro p mem same
      have other := (List.mem_filter.1 mem).2
      rw [decide_eq_true_eq] at other same
      exact other same
    have self : [o].find? (fun p => p.finding = o.finding ∧ p.run = o.run) = some o :=
      List.find?_cons_of_pos (decide_eq_true ⟨rfl, rfl⟩)
    rw [if_pos ⟨rfl, rfl⟩, none_, self]
    rfl
  · have other : [o].find? (fun p => p.finding = key ∧ p.run = runId) = none :=
      List.find?_cons_of_neg fun same => own (of_decide_eq_true same)
    rw [if_neg own, other, Option.or_none, find?_filter_of_imp]
    · rfl
    · intro p same
      rw [decide_eq_true_eq] at same ⊢
      rintro ⟨finding, run⟩
      exact own ⟨finding.symm.trans same.1, run.symm.trans same.2⟩

theorem Answered1.file (answered : Answered1 draws runId st) :
    Answered1 (drawOf s c candidate :: draws) runId (file runId s c candidate st) := by
  have observations : ∀ key, (Scan.file runId s c candidate st).answer key runId =
      (st.recordObservation (drawn runId s c candidate)).answer key runId := fun _ => rfl
  intro d mem
  rw [observations, answer_recordObservation]
  split
  · rfl
  · rename_i other
    rcases List.mem_cons.1 mem with rfl | mem
    · exact absurd ⟨rfl, rfl⟩ other
    · exact answered d mem

end Draws

/-! ## Rows -/

/-- Of a pass that files everything: the findings remember the draws, and what was drawn
is answered. -/
structure Filing (draws : List Draw) (runId : Nat) (p : Pass) : Prop where
  remembered : Remembered (drawsOf p.log ++ draws) p.store
  answered : Answered1 (drawsOf p.log) runId p.store

section Filing

variable {e : Env} {draws : List Draw} {runId row : Nat} {s : Surface} {c : Check} {p q : Pass}
  {w : Work}

theorem Filing.of_eq (filing : Filing draws runId p)
    (findings : q.store.findings = p.store.findings)
    (observations : q.store.observations = p.store.observations)
    (log : drawsOf q.log = drawsOf p.log) : Filing draws runId q := by
  obtain ⟨remembered, answered⟩ := filing
  constructor
  · rw [Remembered, findings, log]
    exact remembered
  · rw [Answered1, log]
    intro d mem
    rw [Engagement.answer, observations]
    exact answered d mem

theorem store_foldl_filed {written : List Candidate} :
    (written.foldl (fun p candidate => p.filed runId s c candidate) p).store =
      written.foldl (fun st candidate => file runId s c candidate st) p.store := by
  induction written generalizing p with
  | nil => rfl
  | cons candidate written ih => exact ih

theorem store_apply : (w.apply runId row s c p).store =
    w.written.foldl (fun st candidate => file runId s c candidate st) p.store := by
  have same : (w.accepted row s c (w.driven row p)).store = p.store := by
    rw [Work.accepted, Work.driven]
    cases w.verdict with
    | none =>
        cases w.drove with
        | none => rfl
        | some d => rfl
    | some v =>
        cases w.drove with
        | none => rfl
        | some d => rfl
  rw [Work.apply, store_foldl_filed, same]

theorem drawsOf_events {generation : Option Nat} {log : List Event} :
    drawsOf (w.events row s c generation ++ log) =
      w.verdict.elim [] (verdictDraws s c) ++ drawsOf log := by
  have driven : drawsOf
      ((w.drove.map fun d => Event.probes row generation d.1 d.2).toList ++ log) = drawsOf log := by
    cases w.drove with
    | none => rfl
    | some d => rfl
  rw [Work.events, List.append_assoc]
  cases w.verdict with
  | none => exact driven
  | some v => exact congrArg (verdictDraws s c v ++ ·) driven

/-- Findings that are written one after the other are remembered and answered. -/
theorem filing_foldl (written : List Candidate) {new : List Draw} {st : Engagement}
    (remembered : Remembered (new ++ draws) st) (answered : Answered1 new runId st) :
    Remembered ((written.map (drawOf s c)).reverse ++ new ++ draws)
        (written.foldl (fun st candidate => file runId s c candidate st) st) ∧
      Answered1 ((written.map (drawOf s c)).reverse ++ new) runId
        (written.foldl (fun st candidate => file runId s c candidate st) st) := by
  induction written generalizing new st with
  | nil => exact ⟨remembered, answered⟩
  | cons candidate written ih =>
      have next : Remembered ((drawOf s c candidate :: new) ++ draws)
        (file runId s c candidate st) := remembered.file
      have rest := ih next answered.file
      rw [List.map_cons, List.reverse_cons, List.append_assoc _ [_] new]
      exact rest

/-- Where all is filed, the work of a row keeps the books of the findings. -/
theorem Filing.apply (filing : Filing draws runId p)
    (ended : (∃ v, w.Complete v) ∨ w.Failed e) (filed : Filed e (w.apply runId row s c p).log) :
    Filing draws runId (w.apply runId row s c p) := by
  have log : (w.apply runId row s c p).log =
      w.events row s c (p.bracket.map fun b => b.resolved.generation) ++ p.log := Work.apply_log
  have returned : ∀ v, w.verdict = some v →
      .returned row s c v w.next ∈ (w.apply runId row s c p).log := by
    intro v verdict
    rw [log]
    exact List.mem_append_left _ (mem_events_iff.2 ⟨verdict, rfl, rfl, rfl, rfl⟩)
  have drew : drawsOf (w.apply runId row s c p).log =
      (w.written.map (drawOf s c)).reverse ++ drawsOf p.log := by
    rw [log, drawsOf_events]
    rcases ended with ⟨v, verdict, written⟩ | failed
    · rw [verdict, written, Option.elim_some, verdictDraws]
      split
      · rfl
      · rfl
    · obtain ⟨verdict, written⟩ := failed.of_filed filed returned
      rw [verdict, written]
      rfl
  have written := filing_foldl (s := s) (c := c) w.written filing.remembered filing.answered
  rw [← drew, ← store_apply] at written
  exact ⟨written.1, written.2⟩

/-- The invariant of the loop. -/
def FilesAll (e : Env) (draws : List Draw) (runId : Nat) (p : Pass) : Prop :=
  Filed e p.log → Filing draws runId p

theorem FilesAll.like (holds : FilesAll e draws runId p) (like : p.Like q) :
    FilesAll e draws runId q := by
  obtain ⟨_, _, _, rfl⟩ := like
  exact fun filed => (holds filed).of_eq rfl rfl rfl

theorem FilesAll.quiet (holds : FilesAll e draws runId p) (h : p.Quiet q) :
    FilesAll e draws runId q := by
  apply h.keeps (I := FilesAll e draws runId) _ _ _ holds
  · exact fun _ _ holds like => holds.like like
  · exact fun _ _ _ holds filed => (holds (filed_of_cons filed)).of_eq rfl rfl rfl
  · exact fun _ _ holds filed => (holds filed).of_eq rfl rfl rfl

theorem FilesAll.worked (holds : FilesAll e draws runId p)
    (ended : (∃ v, w.Complete v) ∨ w.Failed e) :
    FilesAll e draws runId (w.apply runId row s c (p.opened runId s c)) := by
  intro filed
  have older : Filed e p.log := by
    have log : (w.apply runId row s c (p.opened runId s c)).log = _ := Work.apply_log
    rw [log] at filed
    exact filed.of_append
  have opened : Filing draws runId (p.opened runId s c) := (holds older).of_eq rfl rfl rfl
  exact opened.apply ended filed

theorem filesAll_keeps (e : Env) (draws : List Draw) (runId : Nat) :
    Keeps e runId (fun _ => FilesAll e draws runId) (FilesAll e draws runId) where
  like _ _ _ holds like := holds.like like
  gives _ _ holds := holds
  canary _ _ holds := wp_mono (wp_canaryIfDue_quiet .refl) (fun _ _ h => holds.quiet h)
    fun _ _ h => holds.quiet h
  counted _ _ holds filed := (holds filed).of_eq rfl rfl rfl
  heartbeat _ _ _ holds filed := (holds filed).of_eq rfl rfl rfl
  late l p s holds := by
    apply wp_mono (wp_skipRest (I := fun _ => FilesAll e draws runId)
      (B := FilesAll e draws runId) _ _ _ _ holds)
    · rintro _ _ ⟨r, holds, rfl⟩ filed
      exact (holds filed).of_eq rfl rfl rfl
    · exact fun _ _ h => h
    · exact fun _ _ _ holds like => holds.like like
    · exact fun _ _ _ holds filed => (holds filed).of_eq rfl rfl rfl
    · exact fun _ _ holds => holds
    · exact fun _ _ _ _ holds filed => (holds filed).of_eq rfl rfl rfl
  row l p q s c holds _ ends := by
    cases ends with
    | skipped key reason like =>
        refine FilesAll.like ?_ like
        exact fun filed => (holds filed).of_eq rfl rfl rfl
    | closed w v complete like =>
        refine FilesAll.like ?_ like
        exact fun filed => (holds.worked (.inl ⟨v, complete⟩) filed).of_eq rfl rfl rfl
    | failed w verdict reason failed word like =>
        refine FilesAll.like ?_ like
        exact fun filed => (holds.worked (.inr failed) filed).of_eq rfl rfl rfl
  breaks l p q s c holds breaks := by
    cases breaks with
    | unopened like => exact holds.like like
    | pending w failed like => exact (holds.worked (.inr failed)).like like
    | unclosed w ended like =>
        refine FilesAll.like ?_ like
        exact fun filed => (holds.worked ended filed).of_eq rfl rfl rfl

end Filing

/-! ## The pass -/

section Pass

variable {e : Env} {draws : List Draw} {runId : Nat} {p q : Pass} {st : Engagement}

theorem mem_drawsOf {log : List Event} {d : Draw} (mem : d ∈ drawsOf log) :
    ∃ row s c v next, .returned row s c v next ∈ log ∧
      ∃ candidate ∈ v.candidates, d = drawOf s c candidate := by
  induction log with
  | nil => exact absurd mem List.not_mem_nil
  | cons event log ih =>
      have older : d ∈ drawsOf log → ∃ row s c v next, .returned row s c v next ∈ event :: log ∧
          ∃ candidate ∈ v.candidates, d = drawOf s c candidate := by
        intro mem
        obtain ⟨row, s, c, v, next, among, drew⟩ := ih mem
        exact ⟨row, s, c, v, next, List.mem_cons_of_mem _ among, drew⟩
      cases event with
      | returned row s c v next =>
          rcases List.mem_append.1 mem with mem | mem
          · rw [verdictDraws] at mem
            split at mem
            · obtain ⟨candidate, among, rfl⟩ := List.mem_map.1 (List.mem_reverse.1 mem)
              exact ⟨row, s, c, v, next, List.mem_cons_self, candidate, among, rfl⟩
            · exact absurd mem List.not_mem_nil
          · exact older mem
      | canary origin generation passed sent refused => exact older mem
      | probes row generation sent refused => exact older mem
      | settled state next => exact older mem
      | retired f => exact older mem

theorem drawsOf_retired (fs : List Finding) (log : List Event) :
    drawsOf (fs.map .retired ++ log) = drawsOf log := by
  induction fs with
  | nil => rfl
  | cons f fs ih => exact ih

/-- What was seen is not answered again by the retirement. -/
theorem answer_retire {seen : List String} {keys : List (String × String × String)} {key : String}
    (known : key ∈ seen) : (retire runId seen keys st).answer key runId = st.answer key runId := by
  have go : ∀ (fs : List Finding) (st : Engagement), (∀ f ∈ fs, f.key ≠ key) →
      (fs.foldl (fun st f => st.recordObservation (gone runId f)) st).answer key runId =
        st.answer key runId := by
    intro fs
    induction fs with
    | nil => exact fun _ _ => rfl
    | cons f fs ih =>
        intro st others
        refine (ih _ fun f mem => others f (List.mem_cons_of_mem _ mem)).trans ?_
        refine (answer_recordObservation _ _).trans (if_neg ?_)
        exact fun same => others f List.mem_cons_self same.1
  apply go
  rintro f mem rfl
  have retired := (List.mem_filter.1 mem).2
  rw [retires, List.contains_iff_mem.2 known] at retired
  exact Bool.noConfusion retired

theorem wp_markUnobserved_files (holds : FilesAll e draws runId p)
    (offers : Filed e p.log → Offers runId p) :
    wp (markUnobserved e runId) (fun _ => FilesAll e draws runId)
      (fun _ => FilesAll e draws runId) p := by
  apply wp_markUnobserved
  · exact fun _ => holds
  · intro filed
    have older : Filed e p.log := filed.of_append
    obtain ⟨remembered, answered⟩ := holds older
    constructor
    · rw [Remembered, retire_eq, drawsOf_retired]
      exact remembered
    · rw [Answered1, drawsOf_retired]
      intro d mem
      obtain ⟨row, s, c, v, next, among, candidate, drew, same⟩ := mem_drawsOf mem
      have known : d.key ∈ p.seen := by
        rw [same]
        exact (offers older).seen row s c v next among candidate drew
      exact (answer_retire known).trans (answered d mem)
  · exact fun _ => holds.like (.tick _ _)

theorem wp_body_files {old : List CheckRun} (start : Offering e runId old [] p)
    (holds : FilesAll e draws runId p) :
    wp (body e runId) (fun _ => FilesAll e draws runId) (fun _ => FilesAll e draws runId) p := by
  have keeps := (offering_keeps e runId old).and (filesAll_keeps e draws runId)
  refine wp_mono (wp_body (Q := fun _ => FilesAll e draws runId) keeps ⟨start, holds⟩
    ?_ ?_ ?_ ?_) (fun _ _ ⟨_, _, _, h⟩ => h) fun _ _ h => h.2
  · exact fun l q r holds h => ⟨holds.1.quiet h, holds.2.quiet h⟩
  · exact fun l q b state holds => ⟨holds.1.identified b state,
      fun filed => (holds.2 (filed_of_cons filed)).of_eq rfl rfl rfl⟩
  · exact fun l q state t holds => ⟨trivial, fun filed => (holds.2 filed).of_eq rfl rfl rfl⟩
  · intro surfaces q holds
    exact wp_mono (wp_markUnobserved_files holds.2 holds.1.2) (fun _ _ h => h)
      fun _ _ h => ⟨trivial, h⟩

theorem wp_run_files (issued : st.Issued) (remembered : Remembered draws st) :
    wp (run e) (fun _ => FilesAll e draws (st.handedBack .scan (e.now 0)))
      (fun _ => FilesAll e draws (st.handedBack .scan (e.now 0))) (Pass.begin st) := by
  have begun : ∀ q, (Pass.begin st).Reran q →
      FilesAll e draws (st.handedBack .scan (e.now 0)) q := by
    rintro q ⟨⟨_, _, _, rfl⟩, _⟩ _
    exact ⟨remembered, fun _ mem => absurd mem List.not_mem_nil⟩
  apply wp_run issued
  · exact begun (Pass.begin st) ⟨⟨_, _, _, rfl⟩, fun _ _ => id⟩
  · exact fun q reran _ => begun q reran
  · exact fun q h => wp_body_files h.offering (begun q h.rest)
  · exact fun q at_ reason t holds filed => (holds filed).of_eq rfl rfl rfl
  · exact fun q t holds filed => (holds filed).of_eq rfl rfl rfl
  · intro exc q holds
    apply wp_halt holds
    · exact fun q b holds filed => (holds (filed_of_cons filed)).of_eq rfl rfl rfl
    · exact fun q t holds filed => (holds filed).of_eq rfl rfl rfl
    · exact fun q at_ reason t holds filed => (holds filed).of_eq rfl rfl rfl
    · exact fun q t holds filed => (holds filed).of_eq rfl rfl rfl

end Pass

end Hx.Scan
