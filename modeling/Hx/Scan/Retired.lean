import Hx.Scan.Calls

/-!
# What a retirement is licensed by

An offer is kept when a verdict is accepted, the findings are written after it, the row is
closed last, and the retirement reads the offers when all is over. Where every finding
could be written, and every verdict was one the classmethods construct, the four agree.
-/

namespace Hx.Scan

open Hx.Checks Hx.Library Hx.Python Hx.Store Prog

/-! ## What a pass is asked to meet -/

/-- What the classmethods see to: only a finding has candidates, and an inconclusive
verdict considered nothing. -/
structure Returned.Constructed (v : Returned) : Prop where
  candidates : v.state ≠ .finding → v.candidates = []
  considered : v.state = .inconclusive → v.considered = []

theorem constructed_ofVerdict (v : Verdict) : (Returned.ofVerdict v).Constructed := by
  cases v with
  | clean considered => exact ⟨fun _ => rfl, fun other => VerdictState.noConfusion other⟩
  | finding candidates some_ considered =>
      exact ⟨fun other => absurd rfl other, fun other => VerdictState.noConfusion other⟩
  | inconclusive reason said => exact ⟨fun _ => rfl, fun _ => rfl⟩

/-- Every verdict was one the classmethods construct, and every finding of it was written. -/
def Filed (e : Env) (log : List Event) : Prop :=
  ∀ row s c v next, .returned row s c v next ∈ log → v.Constructed ∧
    (v.state = .finding → ∀ i < v.candidates.length, e.fault (next + i) = none)

theorem Filed.of_append {e : Env} {newer log : List Event} (filed : Filed e (newer ++ log)) :
    Filed e log :=
  fun row s c v next mem => filed row s c v next (List.mem_append_right _ mem)

def offerOf (s : Surface) (c : Check) (v : Returned) : Offer := ⟨c.hook, s.id, c.id, s.origin, v⟩

/-- The offer is of a row that closed `clean` or `finding`. -/
def Examined (runId : Nat) (p : Pass) (o : Offer) : Prop :=
  ∃ row s c v next, .returned row s c v next ∈ p.log ∧ o = offerOf s c v ∧
    ∃ r ∈ rowsOf p.store runId, r.id = row ∧ (r.verdict = .clean ∨ r.verdict = .finding)

/-- What a finding is retired on. -/
structure Licensed (runId : Nat) (p : Pass) (f : Finding) : Prop where
  examined : ∃ o, Examined runId p o ∧ f.surface = some o.surface ∧ f.check = some o.check ∧
    (∃ type ∈ o.verdict.considered, f.issueTypeId = some type.val) ∧
    (o.hook = .probes → p.summary.identityState = some .proven ∧
      p.bracket.map Bracket.target = some o.origin)
  undrawn : ∀ row s c v next, .returned row s c v next ∈ p.log →
    ∀ candidate ∈ v.candidates, keyOf s c candidate ≠ f.key

/-! ## Rows -/

section Row

variable {e : Env} {runId : Nat} {s : Surface} {c : Check} {p q : Pass} {w : Work} {row : CheckRun}

theorem mem_seen_foldl_filed {written : List Candidate} {key : String} :
    key ∈ (written.foldl (fun p candidate => p.filed runId s c candidate) p).seen ↔
      key ∈ p.seen ∨ ∃ candidate ∈ written, keyOf s c candidate = key := by
  induction written generalizing p with
  | nil => exact (or_iff_left fun ⟨_, mem, _⟩ => List.not_mem_nil mem).symm
  | cons candidate written ih =>
      have filed : key ∈ (p.filed runId s c candidate).seen ↔
          key ∈ p.seen ∨ keyOf s c candidate = key := by
        change key ∈ (if p.seen.contains (keyOf s c candidate) then p.seen
          else p.seen ++ [keyOf s c candidate]) ↔ _
        split
        · rename_i known
          refine (or_iff_left_of_imp ?_).symm
          rintro rfl
          exact List.contains_iff_mem.1 known
        · rw [List.mem_append, List.mem_singleton, eq_comm (a := key)]
      rw [List.foldl_cons, ih, filed, or_assoc, List.exists_mem_cons_iff]

theorem mem_seen_apply {row : Nat} {key : String} : key ∈ (w.apply runId row s c p).seen ↔
    key ∈ p.seen ∨ ∃ candidate ∈ w.written, keyOf s c candidate = key := by
  have same : (w.accepted row s c (w.driven row p)).seen = p.seen := by
    rw [Work.accepted, Work.driven]
    cases w.verdict with
    | none =>
        cases w.drove with
        | none => rfl
        | some d => rfl
    | some v =>
        cases w.drove with
        | none => rfl
        | some d => rfl
  rw [Work.apply, mem_seen_foldl_filed, same]

theorem mem_events_iff {row row' next : Nat} {s' : Surface} {c' : Check} {v : Returned}
    {generation : Option Nat} : .returned row' s' c' v next ∈ w.events row s c generation ↔
      w.verdict = some v ∧ row' = row ∧ s' = s ∧ c' = c ∧ next = w.next := by
  have probes : .returned row' s' c' v next ∉
      (w.drove.map fun d => Event.probes row generation d.1 d.2).toList := by
    cases w.drove with
    | none => exact List.not_mem_nil
    | some d =>
        intro mem
        exact Event.noConfusion (List.mem_singleton.1 mem)
  rw [Work.events, List.mem_append, or_iff_left probes]
  cases w.verdict with
  | none => exact iff_of_false List.not_mem_nil fun h => Option.some_ne_none v h.1.symm
  | some v' =>
      refine List.mem_singleton.trans ?_
      constructor
      · intro same
        cases same
        exact ⟨rfl, rfl, rfl, rfl, rfl⟩
      · rintro ⟨same, rfl, rfl, rfl, rfl⟩
        cases same
        rfl

/-- In a pass that files everything, what fails returned nothing. -/
theorem Work.Failed.of_filed {log : List Event} {row : Nat} (failed : w.Failed e)
    (filed : Filed e log)
    (returned : ∀ v, w.verdict = some v → .returned row s c v w.next ∈ log) :
    w.verdict = none ∧ w.written = [] := by
  rcases failed with none_ | ⟨v, candidate, verdict, found, within, fault⟩
  · exact none_
  · have shorter : w.written.length < v.candidates.length := by
      have le := within.length_le
      rwa [List.length_append] at le
    exact absurd ((filed _ _ _ _ _ (returned v verdict)).2 found _ shorter) fault

/-- A row of a pass that files everything: nothing was returned, or it closes with the
word of a verdict whose findings are all on file. -/
theorem RowDone.of_filed (done : RowDone e runId s c p q w row) (filed : Filed e q.log) :
    w.verdict = none ∨ ∃ v, w.Complete v ∧ v.Constructed ∧ row.verdict = v.state.row := by
  have returned : ∀ v, w.verdict = some v →
      .returned p.store.nextId s c v w.next ∈ q.log := by
    intro v verdict
    rw [done.log]
    exact List.mem_append_left _ (mem_events_iff.2 ⟨verdict, rfl, rfl, rfl, rfl⟩)
  rcases done.ends with ⟨_, rfl⟩ | ⟨v, complete, word⟩ | ⟨failed, _⟩
  · exact .inl rfl
  · exact .inr ⟨v, complete, (filed _ _ _ _ _ (returned v complete.1)).1, word⟩
  · exact .inl (failed.of_filed filed returned).1

end Row

/-! ## Offers -/

/-- Every offer is of a row that closed on it, and what was drawn was seen. -/
structure Offers (runId : Nat) (p : Pass) : Prop where
  offered : ∀ o ∈ p.offered, Examined runId p o
  seen : ∀ row s c v next, .returned row s c v next ∈ p.log →
    ∀ candidate ∈ v.candidates, keyOf s c candidate ∈ p.seen

namespace Offers

variable {e : Env} {runId : Nat} {s : Surface} {c : Check} {p q : Pass} {w : Work} {row : CheckRun}

theorem closes (holds : Offers runId p) (done : RowDone e runId s c p q w row)
    (filed : Filed e q.log) : Offers runId q := by
  have rows := done.oneMore.rowsOf
  have verdict := done.of_filed filed
  constructor
  · intro o mem
    rw [done.offered, List.mem_append] at mem
    rcases mem with mem | mem
    · obtain ⟨row', s', c', v, next, mem, same, r, among, closed⟩ := holds.offered o mem
      refine ⟨row', s', c', v, next, ?_, same, r, ?_, closed⟩
      · rw [done.log]
        exact List.mem_append_right _ mem
      · rw [rows]
        exact List.mem_append_left _ among
    · rcases verdict with none_ | ⟨v, complete, constructed, word⟩
      · rw [Work.offers, none_] at mem
        exact absurd mem List.not_mem_nil
      · rw [Work.offers, complete.1] at mem
        change o ∈ (if v.considered = [] then [] else [offerOf s c v]) at mem
        split at mem
        · exact absurd mem List.not_mem_nil
        · rename_i considered
          rw [List.mem_singleton] at mem
          refine ⟨p.store.nextId, s, c, v, w.next, ?_, mem, row, ?_, done.names.1, ?_⟩
          · rw [done.log]
            exact List.mem_append_left _ (mem_events_iff.2 ⟨complete.1, rfl, rfl, rfl, rfl⟩)
          · rw [rows]
            exact List.mem_append_right _ (List.mem_singleton.2 rfl)
          · rw [word]
            cases state : v.state with
            | clean => exact .inl rfl
            | finding => exact .inr rfl
            | inconclusive => exact absurd (constructed.considered state) considered
  · intro row' s' c' v next mem candidate among
    rw [done.seen, mem_seen_apply]
    rw [done.log, List.mem_append, mem_events_iff] at mem
    rcases mem with ⟨same, _, rfl, rfl, _⟩ | mem
    · rcases verdict with none_ | ⟨v', complete, constructed, _⟩
      · rw [none_] at same
        contradiction
      · rw [complete.1] at same
        cases same
        refine .inr ⟨candidate, ?_, rfl⟩
        rw [complete.2]
        split
        · exact among
        · rename_i other
          exact (constructed.candidates other) ▸ among
    · exact .inl (holds.seen _ _ _ _ _ mem candidate among)

/-- The offers are not looked at again before the retirement. -/
theorem of_eq (holds : Offers runId p) (offered : q.offered = p.offered) (seen : q.seen = p.seen)
    (rows : ∀ r ∈ rowsOf p.store runId, r ∈ rowsOf q.store runId)
    (log : ∀ row s c v next, .returned row s c v next ∈ q.log ↔ .returned row s c v next ∈ p.log) :
    Offers runId q := by
  constructor
  · rw [offered]
    intro o mem
    obtain ⟨row, s, c, v, next, mem, same, r, among, closed⟩ := holds.offered o mem
    exact ⟨row, s, c, v, next, (log _ _ _ _ _).2 mem, same, r, rows r among, closed⟩
  · intro row s c v next mem
    rw [seen]
    exact holds.seen _ _ _ _ _ ((log _ _ _ _ _).1 mem)

theorem quiet (holds : Offers runId p) (h : p.Quiet q) : Offers runId q := by
  apply h.keeps (I := Offers runId) _ _ _ holds
  · rintro p q holds ⟨_, _, _, rfl⟩
    exact holds.of_eq rfl rfl (fun _ mem => mem) fun _ _ _ _ _ => Iff.rfl
  · intro p b got holds
    refine holds.of_eq rfl rfl (fun _ mem => mem) fun _ _ _ _ _ => ?_
    exact List.mem_cons.trans (or_iff_right nofun)
  · exact fun p b holds => holds.of_eq rfl rfl (fun _ mem => mem) fun _ _ _ _ _ => Iff.rfl

theorem identified (holds : Offers runId p) (b : Bracket) (state : IdentityState) :
    Offers runId (p.identified runId b state) := by
  refine holds.of_eq rfl rfl (fun _ mem => mem) fun _ _ _ _ _ => ?_
  exact List.mem_cons.trans (or_iff_right nofun)

end Offers

/-- A canary is never taken back from the log. -/
theorem Pass.Quiet.log {p q : Pass} (h : p.Quiet q) : ∃ newer, q.log = newer ++ p.log := by
  apply h.keeps (I := fun q => ∃ newer, q.log = newer ++ p.log)
  · rintro q r ⟨newer, log⟩ ⟨_, _, _, rfl⟩
    exact ⟨newer, log⟩
  · rintro q b got ⟨newer, log⟩
    refine ⟨.canary b.target b.resolved.generation
      ((canary b.declared.liveness got).toOption.getD false) got.sent got.refusals :: newer, ?_⟩
    rw [Pass.canaried, log]
    rfl
  · exact fun q b log => log
  · exact ⟨[], rfl⟩

/-- Of a pass that files everything, the offers so far. -/
def Offering (e : Env) (runId : Nat) (earlier : List CheckRun) (l : List (Surface × Check))
    (p : Pass) : Prop :=
  Rows runId earlier l p ∧ (Filed e p.log → Offers runId p)

theorem offering_keeps (e : Env) (runId : Nat) (earlier : List CheckRun) :
    Keeps e runId (Offering e runId earlier) fun _ => True where
  like l p q holds like := by
    refine ⟨holds.1.quiet (.like .refl like), fun filed => ?_⟩
    obtain ⟨_, _, _, rfl⟩ := like
    exact (holds.2 filed).quiet (.like .refl ⟨_, _, _, rfl⟩)
  gives _ _ _ := trivial
  canary l p holds := by
    refine wp_mono (wp_canaryIfDue_quiet .refl) ?_ fun _ _ _ => trivial
    intro _ q h
    refine ⟨holds.1.quiet h, fun filed => (holds.2 ?_).quiet h⟩
    obtain ⟨newer, log⟩ := h.log
    rw [log] at filed
    exact filed.of_append
  counted l p holds := ⟨holds.1.of_store rfl rfl rfl, fun filed =>
    (holds.2 filed).of_eq rfl rfl (fun _ mem => mem) fun _ _ _ _ _ => Iff.rfl⟩
  heartbeat l p at_ holds := ⟨holds.1.onRun runId _ (Rows.heartbeat_id at_), fun filed =>
    (holds.2 filed).of_eq rfl rfl (fun _ mem => mem) fun _ _ _ _ _ => Iff.rfl⟩
  late l p s holds := by
    apply wp_mono (wp_skipRest (I := fun done => Offering e runId earlier (l ++ done.map (s, ·)))
      (B := fun _ => True) _ _ _ _ _)
    · rintro _ _ ⟨r, holds, rfl⟩
      exact ⟨holds.1.of_store rfl rfl rfl, fun filed =>
        (holds.2 filed).of_eq rfl rfl (fun _ mem => mem) fun _ _ _ _ _ => Iff.rfl⟩
    · exact fun _ _ _ => trivial
    · rintro done p q holds ⟨_, _, _, rfl⟩
      exact ⟨holds.1.of_store rfl rfl rfl, fun filed =>
        (holds.2 filed).of_eq rfl rfl (fun _ mem => mem) fun _ _ _ _ _ => Iff.rfl⟩
    · intro done c p holds
      rw [List.map_append, ← List.append_assoc]
      have more : OneMore runId p.store (p.late runId s c "budget").store
        (lateRow p runId s c "budget") := late_oneMore holds.1.issued
      refine ⟨holds.1.oneMore more rfl nofun, fun filed =>
        (holds.2 filed).of_eq rfl rfl ?_ fun _ _ _ _ _ => Iff.rfl⟩
      intro r mem
      rw [more.rowsOf]
      exact List.mem_append_left _ mem
    · exact fun _ _ _ => trivial
    · exact fun _ _ _ _ _ => trivial
    · rw [List.map_nil, List.append_nil]
      exact holds
  row l p q s c holds _ ends := by
    obtain ⟨w, row, done⟩ := ends.done holds.1.issued
    refine ⟨holds.1.oneMore done.oneMore done.pair done.settled, fun filed => ?_⟩
    refine (holds.2 ?_).closes done filed
    rw [done.log] at filed
    exact filed.of_append
  breaks _ _ _ _ _ _ _ := trivial

/-! ## Answers -/

/-- Nothing is retired yet: an answer with `observed = 0` is an earlier call's. -/
structure Unretired (runId : Nat) (earlier : List Observation) (p : Pass) : Prop where
  log : ∀ f, .retired f ∉ p.log
  answers : ∀ o ∈ answersOf p.store runId, o.observed = false → o ∈ earlier

namespace Unretired

variable {runId : Nat} {earlier : List Observation} {p q : Pass}

theorem of_eq (holds : Unretired runId earlier p)
    (observations : q.store.observations = p.store.observations)
    (log : ∀ f, .retired f ∈ q.log → .retired f ∈ p.log) : Unretired runId earlier q := by
  refine ⟨fun f mem => holds.log f (log f mem), ?_⟩
  rw [answersOf, observations]
  exact holds.answers

theorem quiet (holds : Unretired runId earlier p) (h : p.Quiet q) : Unretired runId earlier q := by
  apply h.keeps (I := Unretired runId earlier) _ _ _ holds
  · rintro p q holds ⟨_, _, _, rfl⟩
    exact holds.of_eq rfl fun _ mem => mem
  · exact fun p b got holds =>
      holds.of_eq rfl fun f mem => (List.mem_cons.1 mem).resolve_left nofun
  · exact fun p b holds => holds.of_eq rfl fun _ mem => mem

theorem identified (holds : Unretired runId earlier p) (b : Bracket) (state : IdentityState) :
    Unretired runId earlier (p.identified runId b state) :=
  holds.of_eq rfl fun _ mem => (List.mem_cons.1 mem).resolve_left nofun

theorem like (holds : Unretired runId earlier p) (like : p.Like q) : Unretired runId earlier q :=
  holds.quiet (.like .refl like)

theorem rowKeeps (runId : Nat) (earlier : List Observation) (s : Surface) (c : Check) :
    RowKeeps runId s c (Unretired runId earlier) where
  like _ _ holds like := holds.like like
  opened _ holds := holds.of_eq rfl fun _ mem => mem
  drove _ _ _ _ holds := holds.of_eq rfl fun _ mem => (List.mem_cons.1 mem).resolve_left nofun
  returned _ _ _ _ holds := holds.of_eq rfl fun _ mem => (List.mem_cons.1 mem).resolve_left nofun
  filed p candidate holds := by
    refine ⟨holds.log, ?_⟩
    intro o mem unobserved
    have among : o ∈ answersOf (p.store.recordObservation (drawn runId s c candidate)) runId := mem
    rw [answersOf, Engagement.recordObservation, List.mem_filter, List.mem_append,
      List.mem_filter, List.mem_singleton] at among
    rcases among with ⟨⟨old, _⟩ | rfl, own⟩
    · exact holds.answers o (List.mem_filter.2 ⟨old, own⟩) unobserved
    · contradiction
  skipped _ _ _ _ holds := holds.of_eq rfl fun _ mem => mem
  spent _ holds := holds.of_eq rfl fun _ mem => mem
  closed _ _ _ _ holds := holds.of_eq rfl fun _ mem => mem

theorem keeps (e : Env) (runId : Nat) (earlier : List Observation) :
    Keeps e runId (fun _ => Unretired runId earlier) (Unretired runId earlier) where
  like _ _ _ holds like := holds.like like
  gives _ _ holds := holds
  canary _ _ holds := wp_mono (wp_canaryIfDue_quiet .refl) (fun _ _ h => holds.quiet h)
    fun _ _ h => holds.quiet h
  counted _ _ holds := holds.of_eq rfl fun _ mem => mem
  heartbeat _ _ _ holds := holds.of_eq rfl fun _ mem => mem
  late l p s holds := by
    apply wp_mono (wp_skipRest (I := fun _ => Unretired runId earlier)
      (B := Unretired runId earlier) _ _ _ _ holds)
    · rintro _ _ ⟨r, holds, rfl⟩
      exact holds.of_eq rfl fun _ mem => mem
    · exact fun _ _ h => h
    · exact fun _ _ _ holds like => holds.like like
    · exact fun _ _ _ holds => holds.of_eq rfl fun _ mem => mem
    · exact fun _ _ holds => holds
    · exact fun _ _ _ _ holds => holds.of_eq rfl fun _ mem => mem
  row _ _ _ s c holds _ ends := (rowKeeps runId earlier s c).ends holds ends
  breaks _ _ _ s c holds breaks := (rowKeeps runId earlier s c).breaks holds breaks

end Unretired

/-! ## The retirement -/

/-- What is written with `observed = 0`, and what it is written on. -/
structure Retirement (e : Env) (runId : Nat) (earlier : List Observation) (p : Pass) : Prop where
  answers : ∀ o ∈ answersOf p.store runId, o.observed = false →
    o ∈ earlier ∨ ∃ f, .retired f ∈ p.log ∧ o = gone runId f
  onFile : ∀ f, .retired f ∈ p.log → f ∈ p.store.findings
  licensed : Filed e p.log → ∀ f, .retired f ∈ p.log → Licensed runId p f

section Pass

variable {e : Env} {runId : Nat} {earlier : List Observation} {p q : Pass}

theorem Unretired.retirement (holds : Unretired runId earlier p) :
    Retirement e runId earlier p :=
  ⟨fun o mem unobserved => .inl (holds.answers o mem unobserved),
    fun f mem => absurd mem (holds.log f), fun _ f mem => absurd mem (holds.log f)⟩

theorem mem_retirable {o : Offer} {state : Option IdentityState} {proven : Option Origin}
    {type : IssueType} (mem : type ∈ retirable o state proven) : type ∈ o.verdict.considered ∧
      (o.hook = .probes → state = some .proven ∧ proven = some o.origin) := by
  rw [retirable] at mem
  split at mem
  · rename_i passive
    exact ⟨mem, fun active => absurd active passive⟩
  split at mem
  · exact absurd mem List.not_mem_nil
  · rename_i settled
    split at mem
    · rename_i same
      exact ⟨mem, fun _ => ⟨not_not.1 settled, same.symm⟩⟩
    · exact absurd mem List.not_mem_nil

theorem licensed_of_retires (offers : Offers runId p) {f : Finding}
    (retired : retires p.seen (considered p.offered p.summary.identityState
      (p.bracket.map Bracket.target)) f = true) : Licensed runId p f := by
  rw [retires, Bool.and_eq_true, Bool.not_eq_true', List.any_eq_true] at retired
  obtain ⟨unseen, k, key, same⟩ := retired
  rw [decide_eq_true_eq] at same
  obtain ⟨o, offered, ofOffer⟩ := List.mem_flatMap.1 key
  obtain ⟨type, among, rfl⟩ := List.mem_map.1 ofOffer
  obtain ⟨considered, active⟩ := mem_retirable among
  refine ⟨⟨o, offers.offered o offered, same.1, same.2.1, ⟨type, considered, same.2.2⟩, active⟩, ?_⟩
  intro row s c v next mem candidate drawn same
  have known := List.contains_iff_mem.2 (offers.seen row s c v next mem candidate drawn)
  rw [same, unseen] at known
  contradiction

theorem mem_retire {seen : List String} {keys : List (String × String × String)}
    {st : Engagement} {o : Observation} (mem : o ∈ answersOf (retire runId seen keys st) runId) :
    o ∈ answersOf st runId ∨ ∃ f ∈ st.findings.filter (retires seen keys), o = gone runId f := by
  have go : ∀ (fs : List Finding) (st : Engagement),
      o ∈ (fs.foldl (fun st f => st.recordObservation (gone runId f)) st).observations →
      o ∈ st.observations ∨ ∃ f ∈ fs, o = gone runId f := by
    intro fs
    induction fs with
    | nil => exact fun st mem => .inl mem
    | cons f fs ih =>
        intro st mem
        rcases ih _ mem with mem | ⟨f', among, same⟩
        · rcases List.mem_append.1 mem with mem | mem
          · exact .inl (List.mem_filter.1 mem).1
          · exact .inr ⟨f, List.mem_cons_self, List.mem_singleton.1 mem⟩
        · exact .inr ⟨f', List.mem_cons_of_mem _ among, same⟩
  obtain ⟨mem, own⟩ := List.mem_filter.1 mem
  rcases go _ st mem with mem | retired
  · exact .inl (List.mem_filter.2 ⟨mem, own⟩)
  · exact .inr retired

/-- The retirement reads the offers, and writes what it has a licence for. -/
theorem wp_markUnobserved_licensed (unretired : Unretired runId earlier p)
    (offers : Filed e p.log → Offers runId p) :
    wp (markUnobserved e runId) (fun _ => Retirement e runId earlier)
      (fun _ => Unretired runId earlier) p := by
  apply wp_markUnobserved
  · exact fun _ => unretired.retirement
  · have returned : ∀ row s c v next,
        (.returned row s c v next ∈ (p.store.findings.filter (retires p.seen (considered p.offered
          p.summary.identityState (p.bracket.map Bracket.target)))).map .retired ++ p.log ↔
        .returned row s c v next ∈ p.log) := by
      intro row s c v next
      rw [List.mem_append, List.mem_map]
      refine or_iff_right ?_
      rintro ⟨f, _, same⟩
      contradiction
    constructor
    · intro o mem unobserved
      rcases mem_retire mem with mem | ⟨f, among, same⟩
      · exact .inl (unretired.answers o mem unobserved)
      · exact .inr ⟨f, List.mem_append_left _ (List.mem_map_of_mem among), same⟩
    · intro f mem
      obtain ⟨f', among, same⟩ := List.mem_map.1
        ((List.mem_append.1 mem).resolve_right (unretired.log f))
      cases same
      rw [retire_eq]
      exact (List.mem_filter.1 among).1
    · intro filed f mem
      obtain ⟨f', among, same⟩ := List.mem_map.1
        ((List.mem_append.1 mem).resolve_right (unretired.log f))
      cases same
      have licensed := licensed_of_retires (offers filed.of_append) (List.mem_filter.1 among).2
      obtain ⟨⟨o, ⟨row, s, c, v, next, mem, examined⟩, matched⟩, undrawn⟩ := licensed
      refine ⟨⟨o, ⟨row, s, c, v, next, (returned _ _ _ _ _).2 mem, ?_⟩, matched⟩, ?_⟩
      · rw [rowsOf, retire_eq]
        exact examined
      · exact fun row s c v next mem => undrawn row s c v next ((returned _ _ _ _ _).1 mem)
  · exact fun _ => unretired.of_eq rfl fun _ mem => mem

theorem Offering.quiet {earlier : List CheckRun} {l : List (Surface × Check)}
    (offering : Offering e runId earlier l p) (h : p.Quiet q) :
    Offering e runId earlier l q := by
  refine ⟨offering.1.quiet h, fun filed => (offering.2 ?_).quiet h⟩
  obtain ⟨newer, log⟩ := h.log
  rw [log] at filed
  exact filed.of_append

theorem filed_of_cons {event : Event} {log : List Event} (filed : Filed e (event :: log)) :
    Filed e log :=
  fun row s c v next mem => filed row s c v next (List.mem_cons_of_mem _ mem)

theorem Offering.identified {earlier : List CheckRun} {l : List (Surface × Check)}
    (offering : Offering e runId earlier l p) (b : Bracket) (state : IdentityState) :
    Offering e runId earlier l (p.identified runId b state) :=
  ⟨(offering.1.onRun runId (fun r => { r with
      identity := some b.resolved.id, identityGeneration := some b.resolved.generation
      identityState := some state }) fun _ => rfl).of_store rfl rfl rfl,
    fun filed => (offering.2 (filed_of_cons filed)).identified b state⟩

/-- A pass has offered nothing when it begins. -/
theorem Begun.offering {st : Engagement} {at_ : Int} {runId : Nat}
    (begun : Begun (Pass.begin st) at_ runId q) :
    Offering e runId (rowsOf q.store runId) [] q := by
  refine ⟨⟨begun.issued, [], (List.append_nil _).symm, rfl, rfl⟩, fun _ => ?_⟩
  obtain ⟨_, _, _, rfl⟩ := begun.rest.rest
  exact ⟨fun _ mem => absurd mem List.not_mem_nil,
    fun _ _ _ _ _ mem => absurd mem List.not_mem_nil⟩

theorem wp_body_retirement {old : List CheckRun} (start : Offering e runId old [] p)
    (unretired : Unretired runId earlier p) :
    wp (body e runId) (fun _ => Retirement e runId earlier) (fun _ => Unretired runId earlier) p := by
  have keeps := (offering_keeps e runId old).and (Unretired.keeps e runId earlier)
  refine wp_mono (wp_body (Q := fun _ => Retirement e runId earlier) keeps ⟨start, unretired⟩
    ?_ ?_ ?_ ?_) (fun _ _ ⟨_, _, _, h⟩ => h) fun _ _ h => h.2
  · exact fun l q r holds h => ⟨holds.1.quiet h, holds.2.quiet h⟩
  · exact fun l q b state holds => ⟨holds.1.identified b state, holds.2.identified b state⟩
  · exact fun l q state t holds => ⟨trivial, holds.2.of_eq rfl fun _ mem => mem⟩
  · intro surfaces q holds
    exact wp_mono (wp_markUnobserved_licensed holds.2 holds.1.2) (fun _ _ h => h)
      fun _ _ h => ⟨trivial, h⟩

theorem Retirement.of_eq (holds : Retirement e runId earlier p)
    (observations : q.store.observations = p.store.observations)
    (findings : q.store.findings = p.store.findings)
    (checkRuns : q.store.checkRuns = p.store.checkRuns) (summary : q.summary = p.summary)
    (bracket : q.bracket = p.bracket) (log : q.log = p.log) : Retirement e runId earlier q := by
  constructor
  · rw [answersOf, observations, log]
    exact holds.answers
  · rw [log, findings]
    exact holds.onFile
  · rw [log]
    intro filed f mem
    obtain ⟨⟨o, ⟨row, s, c, v, next, mem, examined⟩, matched⟩, undrawn⟩ := holds.licensed filed f mem
    refine ⟨⟨o, ⟨row, s, c, v, next, log ▸ mem, ?_⟩, ?_⟩, ?_⟩
    · rw [rowsOf, checkRuns]
      exact examined
    · rw [summary, bracket]
      exact matched
    · rw [log]
      exact undrawn

theorem wp_run_retirement {st : Engagement} (issued : st.Issued) :
    wp (run e)
      (fun _ => Retirement e (st.handedBack .scan (e.now 0))
        (answersOf st (st.handedBack .scan (e.now 0))))
      (fun _ => Retirement e (st.handedBack .scan (e.now 0))
        (answersOf st (st.handedBack .scan (e.now 0)))) (Pass.begin st) := by
  have begun : ∀ q, (Pass.begin st).Reran q → Unretired (st.handedBack .scan (e.now 0))
      (answersOf st (st.handedBack .scan (e.now 0))) q := by
    rintro q ⟨⟨_, _, _, rfl⟩, _⟩
    exact ⟨fun _ mem => absurd mem List.not_mem_nil, fun _ mem _ => mem⟩
  apply wp_run issued
  · exact (begun (Pass.begin st) ⟨⟨_, _, _, rfl⟩, fun _ _ => id⟩).retirement
  · exact fun q reran _ => (begun q reran).retirement
  · exact fun q h => wp_body_retirement h.offering (begun q h.rest)
  · exact fun q at_ reason t holds => holds.of_eq rfl rfl rfl rfl rfl rfl
  · exact fun q t holds => holds.of_eq rfl rfl rfl rfl rfl rfl
  · intro exc q holds
    refine wp_mono (Q := fun _ => Unretired _ _) (wp_halt holds ?_ ?_ ?_ ?_)
      (fun _ _ h => h.retirement) fun _ _ h => h.retirement
    · exact fun q b holds => holds.identified b _
    · exact fun q t holds => holds.of_eq rfl fun _ mem => mem
    · exact fun q at_ reason t holds => holds.of_eq rfl fun _ mem => mem
    · exact fun q t holds => holds.of_eq rfl fun _ mem => mem

/-- Of a pass that files everything, a finding is retired only if a row of the pass closed
on a verdict that considered it, no check drew it, and an active check looked at the
origin that was proven; and nothing else is written with `observed = 0`. -/
theorem retired_only_if {st : Engagement} (issued : st.Issued) :
    wp (run e)
      (fun _ => Retirement e (st.handedBack .scan (e.now 0))
        (answersOf st (st.handedBack .scan (e.now 0))))
      (fun _ => Retirement e (st.handedBack .scan (e.now 0))
        (answersOf st (st.handedBack .scan (e.now 0)))) (Pass.begin st) :=
  wp_run_retirement issued

end Pass

/-! ## A finding that could not be written -/

theorem leak_named : "leak" ≠ "" := by decide

theorem leak_evidenced : ["x"] ≠ [] ∧ "" ∉ ["x"] := by decide

def leak : Candidate where
  issueTypeId := ⟨"leak", leak_named⟩
  severity := .high
  confidence := .firm
  insertion := none
  exchangeIds := ["x"]
  evidenced := leak_evidenced

def leaked : Finding :=
  Engagement.newFinding (keyOf front idleCheck leak) leak 0 "front" "shop" "idle"

/-- A pass before this one drew the finding. -/
def filed : Engagement where
  runs := [{ id := 0, kind := .scan, startedUs := 0, heartbeatUs := some 0, status := .completed }]
  findings := [leaked]
  observations := [drawn 0 front idleCheck leak]
  nextId := 1

/-- The check draws it again, and the statement that files it fails. -/
def unwritten : Env :=
  { looking (.ofVerdict (.finding [leak] (List.cons_ne_nil _ _) [leak.issueTypeId])) with
    fault := fun t => if t = 9 then some (.exception "OperationalError" "disk full") else none }

/-- The row is an error, and its finding is retired on it. -/
theorem unwritten_retired : (run unwritten (Pass.begin filed)).1 = .ok () ∧
    (rowsOf (run unwritten (Pass.begin filed)).2.store 1).map (·.verdict) = [.error] ∧
    (answersOf (run unwritten (Pass.begin filed)).2.store 1).map (·.observed) = [false] ∧
    .retired leaked ∈ (run unwritten (Pass.begin filed)).2.log ∧
    ¬ Licensed 1 (run unwritten (Pass.begin filed)).2 leaked := by
  refine ⟨rfl, rfl, rfl, List.mem_cons_self, ?_⟩
  intro licensed
  have returned : .returned 2 front idleCheck
      (.ofVerdict (.finding [leak] (List.cons_ne_nil _ _) [leak.issueTypeId])) 9 ∈
        (run unwritten (Pass.begin filed)).2.log := List.mem_cons_of_mem _ List.mem_cons_self
  exact licensed.undrawn _ _ _ _ _ returned leak List.mem_cons_self rfl

theorem issued_filed : filed.Issued := by
  constructor
  · intro r mem
    rw [List.mem_singleton.1 mem]
    exact Nat.zero_lt_one
  · exact fun _ mem => absurd mem List.not_mem_nil

/-- The check no longer draws it. -/
def mended : Env := looking (.ofVerdict (.clean [leak.issueTypeId]))

/-- The row is clean, and its finding is retired with a licence. -/
theorem mended_retired : .retired leaked ∈ (run mended (Pass.begin filed)).2.log ∧
    Licensed 1 (run mended (Pass.begin filed)).2 leaked := by
  have returned : (run mended (Pass.begin filed)).1 = .ok () := rfl
  have log : (run mended (Pass.begin filed)).2.log = [.retired leaked,
    .returned 2 front idleCheck (.ofVerdict (.clean [leak.issueTypeId])) 9] := rfl
  have retired : .retired leaked ∈ (run mended (Pass.begin filed)).2.log := by
    rw [log]
    exact List.mem_cons_self
  have retirement := retired_only_if (e := mended) issued_filed
  rw [wp, returned] at retirement
  refine ⟨retired, retirement.licensed ?_ leaked retired⟩
  intro row s c v next mem
  rw [log] at mem
  rcases List.mem_cons.1 mem with same | mem
  · contradiction
  · cases List.mem_singleton.1 mem
    exact ⟨constructed_ofVerdict _, fun found => VerdictState.noConfusion found⟩

end Hx.Scan
