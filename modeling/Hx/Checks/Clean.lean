import Hx.Checks.Active

/-!
# Clean means every point was answered and compared

What a check is for, at one point: the requests it needs there and what it makes of the
responses, which is nothing at all where they were not compared. A check is held to its
looks: it says `clean` only if every point it selected was conclusive, and
`inconclusive` when one was not and none gave it a candidate.
-/

namespace Hx.Checks

open Hx.Python

/-- What a check looks at in one point. `compare` is `none` where the responses were not
compared, and otherwise whether they show the issue. -/
structure Look where
  requests : Option (List Request)
  compare : List Response → Option Bool

namespace Look

/-- Every probe of the point was built and sent, and these are the responses. -/
def Heard (l : Look) (outcome : Nat → Outcome) (responses : List Response) : Prop :=
  ∃ requests, l.requests = some requests ∧ requests ≠ [] ∧
    responses.map .response = (List.range requests.length).map outcome

def answered (r : Response) : Bool := r.status.any anAnswer

/-- Every probe came back, and with a 2xx. -/
def AllAnswered (l : Look) (outcome : Nat → Outcome) : Prop :=
  ∃ responses, l.Heard outcome responses ∧ ∀ r ∈ responses, answered r = true

/-- Every probe came back with a 2xx, and the comparison found nothing. -/
def Conclusive (l : Look) (outcome : Nat → Outcome) : Prop :=
  ∃ responses, l.Heard outcome responses ∧ (∀ r ∈ responses, answered r = true) ∧
    l.compare responses = some false

/-- The probes came back, and the comparison shows the issue. -/
def Found (l : Look) (outcome : Nat → Outcome) : Prop :=
  ∃ responses, l.Heard outcome responses ∧ l.compare responses = some true

end Look

/-- What a check that was handed these points may answer. -/
structure Candid (selects : Insertion → Bool) (look : Point → Look) (points : List Point)
    (result : Except Raised Verdict) : Prop where
  clean : ∀ types, result = .ok (.clean types) →
    (∃ p ∈ points, selects p.insertion = true) ∧
      ∀ p ∈ points, selects p.insertion = true → (look p).Conclusive p.outcome
  inconclusive : (∃ p ∈ points, selects p.insertion = true ∧ ¬ (look p).Conclusive p.outcome) →
    (∀ p ∈ points, selects p.insertion = true → ¬ (look p).Found p.outcome) →
    ∃ reason said, result = .ok (.inconclusive reason said)

/-! ## One point -/

/-- How the loop body of a check reads a point it looks at. `raises` is when it raises
without having found anything, `tooLarge` when it was answered but did not compare. -/
structure Reads (look : Look) (outcome : Nat → Outcome) (examined : Except Raised Reading)
    (raises tooLarge : Prop) : Prop where
  found : look.Found outcome → ∀ r, examined = .ok r → r.candidates ≠ []
  raised : ¬ look.Found outcome → raises → ∃ raised, examined = .error raised
  gap : ¬ look.Found outcome → ¬ raises → ¬ look.AllAnswered outcome →
    ∃ r, examined = .ok r ∧ r.candidates = [] ∧ r.gaps ≠ []
  quiet : ¬ look.Found outcome → ¬ raises → look.AllAnswered outcome →
    examined = .ok ⟨[], [], true⟩
  compared : ¬ look.Found outcome → ¬ raises → look.AllAnswered outcome →
    (look.Conclusive outcome ↔ ¬ tooLarge)
  silent : raises → ¬ look.Conclusive outcome

/-! ## The loop -/

section Loop

variable {selects : Insertion → Bool} {examine : Point → Except Raised Reading}

/-- What is left of the points a check selected once its loop is through. -/
structure Swept (selects : Insertion → Bool) (examine : Point → Except Raised Reading)
    (points : List Point) (before after : Reading) : Prop where
  read : ∀ p ∈ points, selects p.insertion = true → ∃ r, examine p = .ok r
  candidates : after.candidates = [] ↔ before.candidates = [] ∧
    ∀ p ∈ points, selects p.insertion = true → ∀ r, examine p = .ok r → r.candidates = []
  gaps : after.gaps = [] ↔ before.gaps = [] ∧
    ∀ p ∈ points, selects p.insertion = true → ∀ r, examine p = .ok r → r.gaps = []
  probed : after.probed = true ↔ before.probed = true ∨
    ∃ p ∈ points, selects p.insertion = true ∧ ∃ r, examine p = .ok r ∧ r.probed = true

theorem swept_nil (t : Reading) : Swept selects examine [] t t where
  read := nofun
  candidates := ⟨fun empty => ⟨empty, nofun⟩, And.left⟩
  gaps := ⟨fun empty => ⟨empty, nofun⟩, And.left⟩
  probed := ⟨.inl, fun h => h.resolve_right nofun⟩

theorem Swept.skip {p : Point} {points : List Point} {t t' : Reading}
    (h : Swept selects examine points t t') (out : selects p.insertion = false) :
    Swept selects examine (p :: points) t t' := by
  have rest : ∀ {P : Point → Prop}, (∀ q ∈ p :: points, selects q.insertion = true → P q) ↔
      ∀ q ∈ points, selects q.insertion = true → P q := by
    intro P
    rw [List.forall_mem_cons]
    exact and_iff_right fun sel => absurd sel (by simp [out])
  refine ⟨rest.2 h.read, ?_, ?_, ?_⟩
  · rw [rest]
    exact h.candidates
  · rw [rest]
    exact h.gaps
  · rw [h.probed]
    simp [out]

theorem Swept.take {p : Point} {points : List Point} {t r t' : Reading}
    (h : Swept selects examine points (t.add r) t') (sel : selects p.insertion = true)
    (read : examine p = .ok r) : Swept selects examine (p :: points) t t' := by
  refine ⟨?_, ?_, ?_, ?_⟩
  · intro q mem picked
    rcases List.mem_cons.1 mem with rfl | mem
    · exact ⟨r, read⟩
    · exact h.read q mem picked
  · rw [h.candidates, List.forall_mem_cons, Reading.add, List.append_eq_nil_iff, and_assoc]
    simp [sel, read]
  · rw [h.gaps, List.forall_mem_cons, Reading.add, List.append_eq_nil_iff, and_assoc]
    simp [sel, read]
  · rw [h.probed, Reading.add, Bool.or_eq_true, or_assoc]
    simp [sel, read]

/-- A loop that is through read every point it selected. -/
theorem swept_of_sweep {points : List Point} {t t' : Reading}
    (h : sweep selects examine points t = .ok t') : Swept selects examine points t t' := by
  induction points generalizing t with
  | nil =>
      cases h
      exact swept_nil _
  | cons p points ih =>
      rw [sweep] at h
      cases sel : selects p.insertion with
      | false =>
          rw [sel] at h
          exact (ih h).skip sel
      | true =>
          rw [sel] at h
          cases read : examine p with
          | error raised =>
              rw [read] at h
              contradiction
          | ok r =>
              rw [read] at h
              exact (ih h).take sel read

/-- A loop that raised did so at a point it selected. -/
theorem raised_of_sweep {points : List Point} {t : Reading} {raised : Raised}
    (h : sweep selects examine points t = .error raised) :
    ∃ p ∈ points, selects p.insertion = true ∧ examine p = .error raised := by
  induction points generalizing t with
  | nil => contradiction
  | cons p points ih =>
      rw [sweep] at h
      cases sel : selects p.insertion with
      | false =>
          rw [sel] at h
          obtain ⟨q, mem, found⟩ := ih h
          exact ⟨q, List.mem_cons_of_mem _ mem, found⟩
      | true =>
          rw [sel] at h
          cases read : examine p with
          | error other =>
              rw [read] at h
              cases h
              exact ⟨p, List.mem_cons_self, sel, read⟩
          | ok r =>
              rw [read] at h
              obtain ⟨q, mem, found⟩ := ih h
              exact ⟨q, List.mem_cons_of_mem _ mem, found⟩

theorem sweep_singleton {p : Point} {t r : Reading} (sel : selects p.insertion = true)
    (read : examine p = .ok r) : sweep selects examine [p] t = .ok (t.add r) := by
  rw [sweep, if_pos sel, read]
  rfl

end Loop

/-! ## The answer -/

section Answer

variable {issueType : IssueType} {unprobed : Sentence} {t : Reading}

theorem answer_of_candidate (found : t.candidates ≠ []) :
    answer issueType unprobed t = .ok (.finding t.candidates found []) := by
  rw [answer]
  split
  · exact dif_pos found
  · exact dif_pos found

theorem answer_of_gap (none_ : t.candidates = []) (gap : t.gaps ≠ []) :
    ∃ reason said, answer issueType unprobed t = .ok (.inconclusive reason said) := by
  refine ⟨gapReason t.gaps, gapReason_ne t.gaps, ?_⟩
  rw [answer]
  split <;> rw [verdict, dif_neg (not_not.2 none_), if_pos gap]

theorem answer_of_unprobed (none_ : t.candidates = []) (gapless : t.gaps = [])
    (idle : t.probed = false) :
    answer issueType unprobed t = .ok (.inconclusive unprobed.val unprobed.property) := by
  rw [answer, idle, if_neg Bool.false_ne_true, verdict, dif_neg (not_not.2 none_),
    if_neg (not_not.2 gapless)]

theorem answer_of_quiet (none_ : t.candidates = []) (gapless : t.gaps = [])
    (probed : t.probed = true) : answer issueType unprobed t = .ok (.clean [issueType]) := by
  rw [answer, probed, if_pos rfl, verdict, dif_neg (not_not.2 none_),
    if_neg (not_not.2 gapless), if_neg (List.cons_ne_nil _ _)]

end Answer

/-! ## When a check is candid -/

section Candid

variable {selects : Insertion → Bool} {examine : Point → Except Raised Reading}
  {look : Point → Look} {raises tooLarge : Point → Prop} {issueType : IssueType}
  {unprobed : Sentence} {points : List Point}

/-- Some point shows the issue, or nothing raises and, unless a point is left unanswered
anyway, every pair of bodies is small enough to compare. -/
def Comparable (selects : Insertion → Bool) (look : Point → Look)
    (raises tooLarge : Point → Prop) (points : List Point) : Prop :=
  (∃ p ∈ points, selects p.insertion = true ∧ (look p).Found p.outcome) ∨
  (∀ p ∈ points, selects p.insertion = true → ¬ raises p) ∧
    ((∃ p ∈ points, selects p.insertion = true ∧ ¬ (look p).AllAnswered p.outcome) ∨
      ∀ p ∈ points, selects p.insertion = true → ¬ tooLarge p)

theorem conclude_of_error {raised : Raised}
    (h : sweep selects examine points .none = .error raised) :
    conclude selects examine issueType unprobed points = .error raised := by
  rw [conclude, h]

theorem conclude_of_ok {t : Reading} (h : sweep selects examine points .none = .ok t) :
    conclude selects examine issueType unprobed points = answer issueType unprobed t := by
  rw [conclude, h]

variable (reads : ∀ p, selects p.insertion = true →
  Reads (look p) p.outcome (examine p) (raises p) (tooLarge p))

include reads

theorem candid_of_found
    (found : ∃ p ∈ points, selects p.insertion = true ∧ (look p).Found p.outcome) :
    Candid selects look points (conclude selects examine issueType unprobed points) := by
  obtain ⟨p, mem, sel, shows⟩ := found
  refine ⟨?_, fun _ none_ => absurd shows (none_ p mem sel)⟩
  intro types clean
  cases swept : sweep selects examine points .none with
  | error raised =>
      rw [conclude_of_error swept] at clean
      contradiction
  | ok t =>
      have all := swept_of_sweep swept
      obtain ⟨r, read⟩ := all.read p mem sel
      have some_ : t.candidates ≠ [] := by
        intro empty
        exact (reads p sel).found shows r read ((all.candidates.1 empty).2 p mem sel r read)
      rw [conclude_of_ok swept, answer_of_candidate some_] at clean
      cases clean

theorem not_candid_of_raises
    (none_ : ∀ p ∈ points, selects p.insertion = true → ¬ (look p).Found p.outcome)
    (raised : ∃ p ∈ points, selects p.insertion = true ∧ raises p) :
    ¬ Candid selects look points (conclude selects examine issueType unprobed points) := by
  obtain ⟨p, mem, sel, raises⟩ := raised
  intro candid
  obtain ⟨reason, said, result⟩ :=
    candid.inconclusive ⟨p, mem, sel, (reads p sel).silent raises⟩ none_
  cases swept : sweep selects examine points .none with
  | error other =>
      rw [conclude_of_error swept] at result
      contradiction
  | ok t =>
      obtain ⟨r, read⟩ := (swept_of_sweep swept).read p mem sel
      obtain ⟨other, error⟩ := (reads p sel).raised (none_ p mem sel) raises
      rw [error] at read
      contradiction

/-- A loop that meets no candidate and nothing that raises. -/
theorem exists_swept
    (none_ : ∀ p ∈ points, selects p.insertion = true → ¬ (look p).Found p.outcome)
    (calm : ∀ p ∈ points, selects p.insertion = true → ¬ raises p) :
    ∃ t, sweep selects examine points .none = .ok t ∧ t.candidates = [] := by
  have read : ∀ p ∈ points, selects p.insertion = true →
      ∃ r, examine p = .ok r ∧ r.candidates = [] := by
    intro p mem sel
    by_cases answered : (look p).AllAnswered p.outcome
    · exact ⟨_, (reads p sel).quiet (none_ p mem sel) (calm p mem sel) answered, rfl⟩
    · obtain ⟨r, ok, empty, _⟩ := (reads p sel).gap (none_ p mem sel) (calm p mem sel) answered
      exact ⟨r, ok, empty⟩
  cases swept : sweep selects examine points .none with
  | error raised =>
      obtain ⟨p, mem, sel, error⟩ := raised_of_sweep swept
      obtain ⟨r, ok, _⟩ := read p mem sel
      rw [error] at ok
      contradiction
  | ok t =>
      refine ⟨t, rfl, (swept_of_sweep swept).candidates.2 ⟨rfl, ?_⟩⟩
      intro p mem sel r ok
      obtain ⟨r', ok', empty⟩ := read p mem sel
      rw [ok] at ok'
      cases ok'
      exact empty

theorem candid_of_gap
    (none_ : ∀ p ∈ points, selects p.insertion = true → ¬ (look p).Found p.outcome)
    (calm : ∀ p ∈ points, selects p.insertion = true → ¬ raises p)
    (gap : ∃ p ∈ points, selects p.insertion = true ∧ ¬ (look p).AllAnswered p.outcome) :
    Candid selects look points (conclude selects examine issueType unprobed points) := by
  obtain ⟨t, swept, empty⟩ := exists_swept reads none_ calm
  obtain ⟨p, mem, sel, unanswered⟩ := gap
  obtain ⟨r, read, _, gaps⟩ := (reads p sel).gap (none_ p mem sel) (calm p mem sel) unanswered
  have some_ : t.gaps ≠ [] := by
    intro none'
    exact gaps (((swept_of_sweep swept).gaps.1 none').2 p mem sel r read)
  obtain ⟨reason, said, result⟩ : ∃ reason said,
      answer issueType unprobed t = .ok (.inconclusive reason said) :=
    answer_of_gap empty some_
  rw [← conclude_of_ok swept] at result
  refine ⟨?_, fun _ _ => ⟨reason, said, result⟩⟩
  intro types clean
  rw [result] at clean
  cases clean

theorem candid_iff_of_answered
    (none_ : ∀ p ∈ points, selects p.insertion = true → ¬ (look p).Found p.outcome)
    (calm : ∀ p ∈ points, selects p.insertion = true → ¬ raises p)
    (answered : ∀ p ∈ points, selects p.insertion = true → (look p).AllAnswered p.outcome) :
    Candid selects look points (conclude selects examine issueType unprobed points) ↔
      ∀ p ∈ points, selects p.insertion = true → ¬ tooLarge p := by
  have quiet : ∀ p ∈ points, selects p.insertion = true → examine p = .ok ⟨[], [], true⟩ :=
    fun p mem sel =>
      (reads p sel).quiet (none_ p mem sel) (calm p mem sel) (answered p mem sel)
  have compared : ∀ p ∈ points, selects p.insertion = true →
      ((look p).Conclusive p.outcome ↔ ¬ tooLarge p) :=
    fun p mem sel =>
      (reads p sel).compared (none_ p mem sel) (calm p mem sel) (answered p mem sel)
  obtain ⟨t, swept, empty⟩ := exists_swept reads none_ calm
  have all := swept_of_sweep swept
  have gapless : t.gaps = [] := by
    refine all.gaps.2 ⟨rfl, ?_⟩
    intro p mem sel r read
    rw [quiet p mem sel] at read
    cases read
    rfl
  cases probed : t.probed with
  | false =>
      have idle : ∀ p ∈ points, selects p.insertion = true → False := by
        intro p mem sel
        have := all.probed.2 (.inr ⟨p, mem, sel, _, quiet p mem sel, rfl⟩)
        rw [probed] at this
        contradiction
      have result : conclude selects examine issueType unprobed points = _ :=
        (conclude_of_ok swept).trans (answer_of_unprobed empty gapless probed)
      apply iff_of_true
      · refine ⟨?_, fun _ _ => ⟨_, _, result⟩⟩
        intro types clean
        rw [result] at clean
        cases clean
      · intro p mem sel
        exact (idle p mem sel).elim
  | true =>
      have result : conclude selects examine issueType unprobed points = _ :=
        (conclude_of_ok swept).trans (answer_of_quiet empty gapless probed)
      constructor
      · intro candid p mem sel
        exact (compared p mem sel).1 ((candid.clean _ result).2 p mem sel)
      · intro small
        refine ⟨?_, ?_⟩
        · intro types _
          obtain ⟨p, mem, sel, _⟩ := (all.probed.1 probed).resolve_left Bool.false_ne_true
          exact ⟨⟨p, mem, sel⟩, fun q mem sel => (compared q mem sel).2 (small q mem sel)⟩
        · rintro ⟨p, mem, sel, missed⟩ _
          exact absurd ((compared p mem sel).2 (small p mem sel)) missed

theorem candid_iff_comparable :
    Candid selects look points (conclude selects examine issueType unprobed points) ↔
      Comparable selects look raises tooLarge points := by
  by_cases found : ∃ p ∈ points, selects p.insertion = true ∧ (look p).Found p.outcome
  · exact iff_of_true (candid_of_found reads found) (.inl found)
  have none_ : ∀ p ∈ points, selects p.insertion = true → ¬ (look p).Found p.outcome :=
    fun p mem sel shows => found ⟨p, mem, sel, shows⟩
  rw [Comparable, or_iff_right found]
  by_cases raised : ∃ p ∈ points, selects p.insertion = true ∧ raises p
  · apply iff_of_false (not_candid_of_raises reads none_ raised)
    rintro ⟨calm, _⟩
    obtain ⟨p, mem, sel, raises⟩ := raised
    exact calm p mem sel raises
  have calm : ∀ p ∈ points, selects p.insertion = true → ¬ raises p :=
    fun p mem sel raises => raised ⟨p, mem, sel, raises⟩
  rw [and_iff_right calm]
  by_cases gap : ∃ p ∈ points, selects p.insertion = true ∧ ¬ (look p).AllAnswered p.outcome
  · exact iff_of_true (candid_of_gap reads none_ calm gap) (.inl gap)
  rw [or_iff_right gap]
  apply candid_iff_of_answered reads none_ calm
  intro p mem sel
  by_contra unanswered
  exact gap ⟨p, mem, sel, unanswered⟩

end Candid

end Hx.Checks
