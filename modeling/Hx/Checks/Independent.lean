import Hx.Checks.Address
import Hx.Checks.Compared

/-!
# A point is read the same with or without the others

A check handed a list of points answers with the candidates each point alone would give it, as
long as it comes to the end of the list. It does unless a body of its loop raises, and under a
sender of a scan there are two ways to that: a `Location` that `urlsplit` does not take, and a
header or a cookie whose name has no Latin-1.
-/

namespace Hx.Checks

open Hx.Python Hx.Issue.HttpText

/-- What a finding is filed under. -/
structure Mark where
  issueType : IssueType
  insertion : Option Insertion
  severity : Severity

def Candidate.mark (c : Candidate) : Mark := ⟨c.issueTypeId, c.insertion, c.severity⟩

def Verdict.marks (v : Verdict) : List Mark := v.candidates.map Candidate.mark

/-- The check answers, and with what the points alone would make it answer. -/
def Independent (probes : List Point → Except Raised Verdict) (points : List Point) : Prop :=
  ∃ v, probes points = .ok v ∧
    ∀ m, m ∈ v.marks ↔ ∃ p ∈ points, ∃ alone, probes [p] = .ok alone ∧ m ∈ alone.marks

/-! ## The loop -/

section Loop

variable {selects : Insertion → Bool} {examine : Point → Except Raised Reading}
  {issueType : IssueType} {unprobed : Sentence} {points : List Point} {p : Point}

/-- The loop body answers for a point, if it is run for it. -/
def Readable (selects : Insertion → Bool) (examine : Point → Except Raised Reading)
    (p : Point) : Prop :=
  selects p.insertion = true → ∃ r, examine p = .ok r

/-- The candidates of one point. -/
def found (selects : Insertion → Bool) (examine : Point → Except Raised Reading) (p : Point) :
    List Candidate :=
  if selects p.insertion then
    match examine p with
    | .ok r => r.candidates
    | .error _ => []
  else []

theorem sweep_candidates {t : Reading} (readable : ∀ p ∈ points, Readable selects examine p) :
    ∃ t', sweep selects examine points t = .ok t' ∧
      t'.candidates = t.candidates ++ points.flatMap (found selects examine) := by
  induction points generalizing t with
  | nil => exact ⟨t, rfl, (List.append_nil _).symm⟩
  | cons p points ih =>
      have rest := (List.forall_mem_cons.1 readable).2
      rw [sweep, List.flatMap_cons, found]
      cases sel : selects p.insertion with
      | false => exact ih rest
      | true =>
          obtain ⟨r, read⟩ := readable p List.mem_cons_self sel
          obtain ⟨t', through, candidates⟩ := ih (t := t.add r) rest
          rw [if_pos rfl, if_pos rfl, read]
          exact ⟨t', through, by rw [candidates, Reading.add, List.append_assoc]⟩

theorem answer_candidates (issueType : IssueType) (unprobed : Sentence) (t : Reading) :
    ∃ v, answer issueType unprobed t = .ok v ∧ v.candidates = t.candidates := by
  by_cases some_ : t.candidates = []
  · by_cases gap : t.gaps = []
    · cases probed : t.probed with
      | false => exact ⟨_, answer_of_unprobed some_ gap probed, some_.symm⟩
      | true => exact ⟨_, answer_of_quiet some_ gap probed, some_.symm⟩
    · obtain ⟨reason, said, answers⟩ : ∃ reason said,
          answer issueType unprobed t = .ok (.inconclusive reason said) :=
        answer_of_gap some_ gap
      exact ⟨_, answers, some_.symm⟩
  · exact ⟨_, answer_of_candidate some_, rfl⟩

theorem conclude_candidates (issueType : IssueType) (unprobed : Sentence)
    (readable : ∀ p ∈ points, Readable selects examine p) :
    ∃ v, conclude selects examine issueType unprobed points = .ok v ∧
      v.candidates = points.flatMap (found selects examine) := by
  obtain ⟨t, swept, candidates⟩ := sweep_candidates (t := .none) readable
  obtain ⟨v, answers, same⟩ := answer_candidates issueType unprobed t
  exact ⟨v, (conclude_of_ok swept).trans answers, same.trans candidates⟩

theorem readable_of_conclude {v : Verdict}
    (h : conclude selects examine issueType unprobed points = .ok v) :
    ∀ p ∈ points, Readable selects examine p := by
  cases swept : sweep selects examine points .none with
  | error raised =>
      rw [conclude_of_error swept] at h
      contradiction
  | ok t => exact fun p mem sel => (swept_of_sweep swept).read p mem sel

/-- A check is independent exactly if it comes to an end. -/
theorem independent_iff :
    Independent (conclude selects examine issueType unprobed) points ↔
      ∀ p ∈ points, Readable selects examine p := by
  constructor
  · rintro ⟨v, answers, -⟩
    exact readable_of_conclude answers
  · intro readable
    obtain ⟨v, answers, candidates⟩ := conclude_candidates issueType unprobed readable
    refine ⟨v, answers, fun m => ?_⟩
    have alone : ∀ p ∈ points, ∃ v, conclude selects examine issueType unprobed [p] = .ok v ∧
        v.candidates = found selects examine p := by
      intro p mem
      have one : ∀ q ∈ [p], Readable selects examine q := by
        intro q same
        rw [List.mem_singleton.1 same]
        exact readable p mem
      obtain ⟨v, answers, candidates⟩ := conclude_candidates issueType unprobed one
      exact ⟨v, answers, by rw [candidates, List.flatMap_singleton]⟩
    rw [Verdict.marks, candidates, List.map_flatMap, List.mem_flatMap]
    constructor
    · rintro ⟨p, mem, marked⟩
      obtain ⟨w, own, same⟩ := alone p mem
      exact ⟨p, mem, w, own, by rwa [Verdict.marks, same]⟩
    · rintro ⟨p, mem, w, own, marked⟩
      obtain ⟨w', own', same⟩ := alone p mem
      rw [own'] at own
      obtain rfl := Except.ok.inj own
      exact ⟨p, mem, by rwa [Verdict.marks, same] at marked⟩

end Loop

/-! ## What a sender takes -/

/-- A surface and a sender as a scan makes them: the path is what `request_path` read off the
exemplar, the template is one of `surface.path_template`, and the surface has its exemplar. -/
structure Ready (surface : Surface) (s : Sender) : Prop where
  origin : s.path.toList.head? = some '/'
  bare : '?' ∉ s.path.toList
  address : placeholderIn s.path = false
  path : isLatin1 s.path = true
  host : isLatin1 s.host = true
  rooted : surface.pathTemplate.toList.head? = some '/'
  exemplar : ∃ id, surface.exemplarExchangeId = some id ∧ id ≠ ""

theorem quoted_char {s : String} {c : Char} (mem : c ∈ (quote s).toList) :
    c.toNat < 256 ∧ c ≠ '/' ∧ c ≠ '?' ∧ c ≠ '{' :=
  forall_quote (p := fun c => c.toNat < 256 ∧ c ≠ '/' ∧ c ≠ '?' ∧ c ≠ '{') (by decide) (by decide)
    (by decide) s c mem

theorem isLatin1_iff {s : String} : isLatin1 s = true ↔ ∀ c ∈ s.toList, c.toNat < 256 := by
  simp [isLatin1]

theorem isLatin1_append {s t : String} :
    isLatin1 (s ++ t) = true ↔ isLatin1 s = true ∧ isLatin1 t = true := by
  simp [isLatin1_iff, String.toList_append, or_imp, forall_and]

theorem partition_of_notMem {α : Type} [DecidableEq α] {sep : α} {s : List α} (h : sep ∉ s) :
    (partition sep s).1 = s := by
  have all : ∀ c ∈ s, decide (c ≠ sep) = true := by
    intro c mem
    exact decide_eq_true fun same => h (same ▸ mem)
  rw [partition, List.span_eq_takeWhile_dropWhile, List.takeWhile_eq_self_iff.2 all,
    List.dropWhile_eq_nil_iff.2 all]

theorem partition_append {α : Type} [DecidableEq α] {sep : α} {s t : List α} (h : sep ∉ s) :
    (partition sep (s ++ sep :: t)).1 = s := by
  have all : ∀ c ∈ s, decide (c ≠ sep) = true := by
    intro c mem
    exact decide_eq_true fun same => h (same ▸ mem)
  rw [partition, List.span_eq_takeWhile_dropWhile, List.takeWhile_append_of_pos all,
    List.dropWhile_append_of_pos all]
  simp

section Sender

variable {surface : Surface} {s : Sender} {headers : List (String × String)}

theorem refusal_eq_none {q : Request} (origin : q.path.toList.head? = some '/')
    (address : placeholderIn q.path = false) (latin : encodable s.host q = true) :
    s.refusal q = none := by
  rw [Sender.refusal, if_neg (not_not.2 origin), address, if_neg Bool.false_ne_true,
    if_pos latin]

theorem encodable_plain {path : String} (ready : Ready surface s) (latin : isLatin1 path = true) :
    encodable s.host { path := path } = true := by
  rw [encodable, latin, ready.host]
  rfl

/-- The pieces of a path with a segment substituted. -/
theorem pieces_substituted {name value out : String}
    (h : substituteSegment s.path surface.pathTemplate name (quote value) = some out) :
    out.toList.splitOn '/' =
      List.zipWith (fun s t => if t = name.toList then (quote value).toList else s)
        (s.path.toList.splitOn '/') (surface.pathTemplate.toList.splitOn '/') := by
  have pieces : ∀ text : String, text.splitOn "/" = (text.toList.splitOn '/').map .ofList :=
    Library.splitOn_char '/'
  have made := h
  rw [substituteSegment, pieces, pieces] at made
  split at made
  · contradiction
  · rename_i same
    split at made
    · contradiction
    · rename_i there
      obtain ⟨piece, among, called⟩ := List.mem_map.1 (not_not.1 there)
      have inside : name.toList ∈ surface.pathTemplate.toList.splitOn '/' := by
        rw [← called, String.toList_ofList]
        exact among
      have plain : '/' ∉ (quote value).toList := fun mem => (quoted_char mem).2.1 rfl
      obtain ⟨out', built, cut⟩ := splitOn_substituteSegment
        (by simpa using not_not.1 same) inside plain
      rw [String.ofList_toList, String.ofList_toList, String.ofList_toList,
        String.ofList_toList, h] at built
      obtain rfl := Option.some.inj built
      exact cut

variable (ready : Ready surface s)

include ready

theorem refusal_queryPath (name value : String) :
    s.refusal { path := queryPath s.path name value } = none := by
  have text : (queryPath s.path name value).toList =
      s.path.toList ++ '?' :: queryText name value := by
    have whole := toList_queryPath s.path.toList name value
    rwa [String.ofList_toList] at whole
  refine refusal_eq_none ?_ ?_ (encodable_plain ready ?_)
  · rw [text, List.head?_append, ready.origin]
    rfl
  · have address := ready.address
    rw [placeholderIn, partition_of_notMem ready.bare] at address
    rw [placeholderIn, text, partition_append ready.bare, address]
  · rw [isLatin1_iff, text]
    intro c mem
    obtain mem | mem := List.mem_append.1 mem
    · exact isLatin1_iff.1 ready.path c mem
    · obtain rfl | mem := List.mem_cons.1 mem
      · decide
      · obtain mem | mem := List.mem_append.1 mem
        · exact (quoted_char mem).1
        · obtain rfl | mem := List.mem_cons.1 mem
          · decide
          · exact (quoted_char mem).1

theorem refusal_substituted {name value out : String} (named : name ≠ "")
    (h : substituteSegment s.path surface.pathTemplate name (quote value) = some out) :
    s.refusal { path := out } = none := by
  have cut := pieces_substituted h
  -- a piece is the quoted value or one of the path's own
  have piece : ∀ part ∈ out.toList.splitOn '/',
      part = (quote value).toList ∨ part ∈ s.path.toList.splitOn '/' := by
    rw [cut]
    intro part mem
    obtain ⟨i, bound, rfl⟩ := List.mem_iff_getElem.1 mem
    rw [List.getElem_zipWith]
    split
    · exact .inl rfl
    · exact .inr (List.getElem_mem _)
  have char : ∀ c ∈ out.toList, c = '/' ∨ c ∈ (quote value).toList ∨ c ∈ s.path.toList := by
    intro c mem
    obtain same | ⟨part, there, inside⟩ := Library.mem_of_splitOn '/' mem
    · exact .inl same
    · obtain rfl | own := piece part there
      · exact .inr (.inl inside)
      · exact .inr (.inr ((Library.mem_splitOn own).2 c inside))
  refine refusal_eq_none ?_ ?_ (encodable_plain ready (isLatin1_iff.2 ?_))
  · obtain ⟨a, first⟩ : ∃ a, s.path.toList = '/' :: a := List.head?_eq_some_iff.1 ready.origin
    obtain ⟨b, second⟩ : ∃ b, surface.pathTemplate.toList = '/' :: b :=
      List.head?_eq_some_iff.1 ready.rooted
    have other : ([] : List Char) ≠ name.toList := fun same =>
      named (String.toList_inj.1 same.symm)
    have root : ∀ rest : List Char, ('/' :: rest).splitOn '/' = [] :: rest.splitOn '/' := by
      intro rest
      rw [List.splitOn_cons_eq_if_modifyHead, if_pos (by simp)]
    rw [first, second, root, root, List.zipWith_cons_cons, if_neg other] at cut
    obtain ⟨x, xs, left⟩ := List.exists_cons_of_ne_nil (List.splitOn_ne_nil '/' a)
    obtain ⟨y, ys, right⟩ := List.exists_cons_of_ne_nil (List.splitOn_ne_nil '/' b)
    rw [left, right, List.zipWith_cons_cons] at cut
    exact Library.head_of_splitOn cut
  · have bare : '?' ∉ out.toList := by
      intro mem
      obtain same | inside | inside := char _ mem
      · exact absurd same (by decide)
      · exact (quoted_char inside).2.2.1 rfl
      · exact ready.bare inside
    have address := ready.address
    rw [placeholderIn, partition_of_notMem ready.bare, List.any_eq_false] at address
    rw [placeholderIn, partition_of_notMem bare, List.any_eq_false]
    intro part mem
    obtain rfl | own := piece part mem
    · rw [isPlaceholder]
      cases text : (quote value).toList with
      | nil => simp
      | cons c rest =>
          have start := (quoted_char (text ▸ List.mem_cons_self : c ∈ (quote value).toList)).2.2.2
          simp [start]
    · exact address part own
  · intro c mem
    obtain rfl | inside | inside := char c mem
    · decide
    · exact (quoted_char inside).1
    · exact isLatin1_iff.1 ready.path c inside

end Sender

/-! ## When a point is read -/

section Point

variable {bracketed : List Char → Bool} {surface : Surface} {s : Sender} {p : Point}

theorem probeOnce_ok {request : Option Request}
    {find : Response → Except Raised (Option (Candidate × List String))}
    (taken : ∀ q, request = some q → s.refusal q = none)
    (reads : ∀ q r, request = some q → p.outcome 0 = .response r → ∃ x, find r = .ok x) :
    ∃ r, probeOnce s p request find = .ok r := by
  cases request with
  | none => exact ⟨_, rfl⟩
  | some q =>
      cases back : p.outcome 0 with
      | refused reason => exact ⟨_, probeOnce_of_refused (taken q rfl) back⟩
      | response r =>
          obtain ⟨x, look⟩ := reads q r rfl back
          exact ⟨_, probeOnce_of_ok (taken q rfl) back look⟩

theorem report_ok {c : Except Raised Candidate} (built : ∃ x, c = .ok x) (gaps : List String) :
    ∃ x, report c gaps = .ok x := by
  obtain ⟨x, rfl⟩ := built
  exact ⟨_, rfl⟩

variable (ready : Ready surface s)

include ready

theorem cite_ok (issueType : IssueType) (severity : Severity) (confidence : Confidence)
    (i : Insertion) (cwe payload : String) :
    ∃ c, cite surface issueType severity confidence i cwe payload = .ok c := by
  obtain ⟨id, there, named⟩ := ready.exemplar
  rw [cite, there]
  exact ⟨_, dif_neg named⟩

/-- What is sent to a query or path-segment point is taken. -/
theorem refusal_probePath {value path : String}
    (h : probePath s.path surface.pathTemplate p.insertion value = .ok (some path)) :
    s.refusal { path := path } = none := by
  rw [probePath] at h
  split at h
  · obtain rfl := Option.some.inj (Except.ok.inj h)
    exact refusal_queryPath ready _ _
  · exact refusal_substituted ready p.insertion.named (Except.ok.inj h)
  · contradiction

/-- A probe is sent and its response looked up in a table. -/
theorem probeOnce_table {table : List (String × String)} {candidate : Except Raised Candidate}
    {value : String} {path : Option String} (built : ∃ c, candidate = .ok c)
    (asked : probePath s.path surface.pathTemplate p.insertion value = .ok path) :
    ∃ r, probeOnce s p (path.map fun path => { path := path })
      (matchTable table candidate) = .ok r := by
  refine probeOnce_ok ?_ fun _ r _ _ => ?_
  · intro q same
    obtain ⟨path', rfl, rfl⟩ := Option.map_eq_some_iff.1 same
    exact refusal_probePath ready asked
  · rw [matchTable]
    split
    · exact ⟨_, rfl⟩
    · exact report_ok built []

theorem SqlError.readable : Readable SqlError.selects (SqlError.examine surface s) p := by
  intro sel
  obtain ⟨path, asked⟩ : ∃ path, probePath s.path surface.pathTemplate p.insertion
      (SqlError.probeValue p) = .ok path := probePath_ok (of_decide_eq_true sel)
  rw [SqlError.examine, asked]
  exact probeOnce_table ready (cite_ok ready ..) asked

theorem PathTraversal.readable :
    Readable PathTraversal.selects (PathTraversal.examine surface s) p := by
  intro sel
  obtain ⟨path, asked⟩ : ∃ path, probePath s.path surface.pathTemplate p.insertion
      PathTraversal.traversalPayload = .ok path :=
    probePath_ok (of_decide_eq_true (Bool.and_eq_true_iff.1 sel).1)
  rw [PathTraversal.examine, asked]
  exact probeOnce_table ready (cite_ok ready ..) asked

theorem SqlBehaviour.compare_ok (quoted escaped : Response) :
    ∃ r, SqlBehaviour.compare surface p quoted escaped = .ok r := by
  rw [SqlBehaviour.compare]
  split
  · split <;> exact ⟨_, rfl⟩
  · obtain ⟨c, built⟩ := cite_ok ready SqlBehaviour.issueType .high .tentative p.insertion
      "CWE-89" (p.minted 0 ++ "'")
    rw [built]
    exact ⟨_, rfl⟩

theorem SqlBehaviour.sendPair_ok {first second : Request} (taken : s.refusal first = none)
    (taken' : s.refusal second = none) :
    ∃ r, SqlBehaviour.sendPair surface s p first second = .ok r := by
  cases back : p.outcome 0 with
  | refused reason => exact ⟨_, SqlBehaviour.sendPair_of_refused taken back⟩
  | response quoted =>
      cases back' : p.outcome 1 with
      | refused reason =>
          exact ⟨_, SqlBehaviour.sendPair_of_second_refused taken back taken' back'⟩
      | response escaped =>
          rw [SqlBehaviour.sendPair_of_responses taken back taken' back']
          exact SqlBehaviour.compare_ok ready quoted escaped

theorem SqlBehaviour.readable :
    Readable SqlBehaviour.selects (SqlBehaviour.examine surface s) p := by
  intro sel
  obtain ⟨first, one⟩ : ∃ a, probePath s.path surface.pathTemplate p.insertion
      (p.minted 0 ++ "'") = .ok a := probePath_ok (of_decide_eq_true sel)
  obtain ⟨second, two⟩ : ∃ a, probePath s.path surface.pathTemplate p.insertion
      (p.minted 0 ++ "''") = .ok a := probePath_ok (of_decide_eq_true sel)
  rw [SqlBehaviour.examine, one]
  cases first with
  | none => exact ⟨_, rfl⟩
  | some first =>
      rw [two]
      cases second with
      | none => exact ⟨_, rfl⟩
      | some second =>
          exact SqlBehaviour.sendPair_ok ready (refusal_probePath ready one)
            (refusal_probePath ready two)

theorem OpenRedirect.readable_iff :
    Readable OpenRedirect.selects (OpenRedirect.examine bracketed surface s) p ↔
      (OpenRedirect.selects p.insertion = true →
        ¬ ∃ r, p.outcome 0 = .response r ∧ OpenRedirect.redirectHost bracketed r = .error ()) := by
  have taken := refusal_queryPath ready p.insertion.name OpenRedirect.markerUrl
  refine imp_congr_right fun _ => ?_
  constructor
  · rintro ⟨read, ok⟩ ⟨r, back, broken⟩
    have find : OpenRedirect.matchResponse bracketed surface p r = .error .badUrl := by
      rw [OpenRedirect.matchResponse, broken]
    rw [OpenRedirect.examine, probeOnce_of_error taken back find] at ok
    contradiction
  · intro whole
    refine probeOnce_ok (fun q same => Option.some.inj same ▸ taken) fun _ r _ back => ?_
    rw [OpenRedirect.matchResponse]
    cases host : OpenRedirect.redirectHost bracketed r with
    | error raised => exact absurd ⟨r, back, host⟩ whole
    | ok host =>
        dsimp only
        split
        · exact report_ok (cite_ok ready ..) []
        · exact ⟨_, rfl⟩

/-- A header or a cookie whose name has no Latin-1. -/
def Unwritable (i : Insertion) : Prop :=
  (i.kind = .header ∨ i.kind = .cookie) ∧ isLatin1 i.name = false

theorem refusal_own (headers : List (String × String)) :
    s.refusal { path := s.path, headers := headers } = none ↔
      ∀ h ∈ headers, isLatin1 h.1 = true ∧ isLatin1 h.2 = true := by
  rw [Sender.refusal, if_neg (not_not.2 ready.origin), ready.address,
    if_neg Bool.false_ne_true, encodable, ready.path, ready.host]
  simp

theorem refusal_forInsertion {value : String} {q : Request} (latin : isLatin1 value = true)
    (h : ReflectedInput.forInsertion s.path surface.pathTemplate p.insertion value =
      .ok (some q)) : s.refusal q = none ↔ ¬ Unwritable p.insertion := by
  rw [ReflectedInput.forInsertion] at h
  cases kind : p.insertion.kind <;> rw [kind] at h
  case bodyForm => contradiction
  case bodyJson => contradiction
  case query =>
      obtain rfl := Option.some.inj (Except.ok.inj h)
      exact iff_of_true (refusal_queryPath ready ..) (by simp [Unwritable, kind])
  case pathSegment =>
      obtain ⟨out, made, rfl⟩ := Option.map_eq_some_iff.1 (Except.ok.inj h)
      exact iff_of_true (refusal_substituted ready p.insertion.named made)
        (by simp [Unwritable, kind])
  case header =>
      obtain rfl := Option.some.inj (Except.ok.inj h)
      rw [refusal_own ready]
      simp [Unwritable, kind, latin]
  case cookie =>
      obtain rfl := Option.some.inj (Except.ok.inj h)
      have word : isLatin1 "Cookie" = true := by decide
      have sign : isLatin1 "=" = true := by decide
      rw [refusal_own ready]
      simp [Unwritable, kind, latin, word, sign, isLatin1_append, toString]

omit ready in
/-- Whether a request can be built does not depend on the value it carries. -/
theorem forInsertion_some {value value' : String} {q : Request}
    (h : ReflectedInput.forInsertion s.path surface.pathTemplate p.insertion value =
      .ok (some q)) : ∃ q', ReflectedInput.forInsertion s.path surface.pathTemplate p.insertion
        value' = .ok (some q') := by
  rw [ReflectedInput.forInsertion] at h ⊢
  cases kind : p.insertion.kind <;> rw [kind] at h
  case bodyForm => contradiction
  case bodyJson => contradiction
  case pathSegment =>
      obtain ⟨out, made, -⟩ := Option.map_eq_some_iff.1 (Except.ok.inj h)
      rw [substituteSegment] at made
      split at made
      · contradiction
      · rename_i same
        split at made
        · contradiction
        · rename_i there
          dsimp only
          rw [substituteSegment, if_neg same, if_neg there]
          exact ⟨_, rfl⟩
  all_goals exact ⟨_, rfl⟩

theorem ReflectedInput.escalate_ok {q : Request} {r : Response}
    (latin : ∀ k, isLatin1 (p.minted k) = true) (writable : ¬ Unwritable p.insertion)
    (asked : forInsertion s.path surface.pathTemplate p.insertion (p.minted 0) = .ok (some q)) :
    ∃ x, escalate surface s p r = .ok x := by
  have wrapped : isLatin1 (metaChars ++ p.minted 1 ++ metaChars) = true := by
    have signs : isLatin1 metaChars = true := by decide
    rw [isLatin1_append, isLatin1_append]
    exact ⟨⟨signs, latin 1⟩, signs⟩
  obtain ⟨q', again⟩ : ∃ q', forInsertion s.path surface.pathTemplate p.insertion
      (metaChars ++ p.minted 1 ++ metaChars) = .ok (some q') := forInsertion_some asked
  have taken := (refusal_forInsertion ready wrapped again).2 writable
  rw [escalate]
  split
  · exact ⟨_, rfl⟩
  · dsimp only
    rw [again]
    dsimp only
    cases p.outcome 1 with
    | refused reason =>
        rw [sendOrGap_of_refused taken]
        exact report_ok (cite_ok ready ..) _
    | response r' =>
        rw [sendOrGap_of_response taken]
        exact report_ok (cite_ok ready ..) _

theorem ReflectedInput.readable_iff (latin : ∀ k, isLatin1 (p.minted k) = true) :
    Readable selects (examine surface s) p ↔
      (selects p.insertion = true → ¬ Unwritable p.insertion) := by
  refine imp_congr_right fun sel => ?_
  obtain ⟨request, asked⟩ : ∃ request, forInsertion s.path surface.pathTemplate p.insertion
      (p.minted 0) = .ok request := forInsertion_ok sel
  rw [examine, asked]
  constructor
  · rintro ⟨read, ok⟩ unwritable
    cases request with
    | none =>
        -- a header and a cookie are always built
        rw [forInsertion] at asked
        obtain header | cookie := unwritable.1
        · rw [header] at asked
          exact absurd (Except.ok.inj asked) (Option.some_ne_none _)
        · rw [cookie] at asked
          exact absurd (Except.ok.inj asked) (Option.some_ne_none _)
    | some q =>
        have refused : s.refusal q ≠ none := fun taken =>
          (refusal_forInsertion ready (latin 0) asked).1 taken unwritable
        obtain ⟨raised, refusal⟩ := Option.ne_none_iff_exists'.1 refused
        dsimp only at ok
        rw [probeOnce_of_refusal refusal] at ok
        contradiction
  · intro writable
    refine probeOnce_ok (fun q same => ?_) fun q r same _ => ?_
    · rw [same] at asked
      exact (refusal_forInsertion ready (latin 0) asked).2 writable
    · rw [same] at asked
      exact escalate_ok ready latin writable asked

end Point

/-! ## The five checks -/

namespace ActiveCheck

variable {bracketed : List Char → Bool} {surface : Surface} {s : Sender}

/-- The responses and the names that end a check: `open_redirect` reads a `Location` that
`urlsplit` does not take, `reflected_input` writes a name that has no Latin-1. -/
def Hostile (c : ActiveCheck) (bracketed : List Char → Bool) (p : Point) : Prop :=
  match c with
  | openRedirect =>
      ∃ r, p.outcome 0 = .response r ∧ OpenRedirect.redirectHost bracketed r = .error ()
  | reflectedInput => Unwritable p.insertion
  | _ => False

end ActiveCheck

/-- A redirect to a network location with one bracket, and one to the marker. -/
def hostileRedirect : Response := ⟨some 302, ascii "HTTP/1.1 302 Found\r\nLocation: http://[", []⟩

def markedRedirect : Response :=
  ⟨some 302, ascii "HTTP/1.1 302 Found\r\nLocation: https://hx-open-redirect-probe.test/", []⟩

def urlPoint (name : String) (named : name ≠ "") (r : Response) : Point where
  insertion := ⟨.query, name, named⟩
  minted _ := "m"
  outcome _ := .response r

theorem ready_root : Ready ⟨"/", some "x1"⟩ ⟨"a.test", "/"⟩ where
  origin := by decide
  bare := by decide
  address := by decide
  path := by decide
  host := by decide
  rooted := by decide
  exemplar := ⟨"x1", rfl, by decide⟩

end Hx.Checks
