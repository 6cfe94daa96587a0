import Hx.Checks.Clean

/-!
# The checks that send one probe to a point

Each check has its look, the request of a point and what the response shows. The four of
them read every response as their look says, or raise.
-/

namespace Hx.Checks

open Hx.Python

/-- The requests of a point, if they can be built and the sender takes all of them. -/
def deliverable (s : Sender) : Option (List Request) → Option (List Request)
  | none => none
  | some qs => if ∀ q ∈ qs, s.refusal q = none then some qs else none

theorem deliverable_eq_some {s : Sender} {requests : Option (List Request)}
    {qs : List Request} : deliverable s requests = some qs ↔
      requests = some qs ∧ ∀ q ∈ qs, s.refusal q = none := by
  cases requests with
  | none => exact iff_of_false nofun nofun
  | some given =>
      rw [deliverable]
      constructor
      · intro h
        split at h
        · cases h
          exact ⟨rfl, by assumption⟩
        · contradiction
      · rintro ⟨⟨⟩, all⟩
        exact if_pos all

/-! ## One probe to a point -/

/-- The comparison of a check that reads one response. -/
def reading (shows : Response → Option Bool) : List Response → Option Bool
  | [r] => shows r
  | _ => none

/-- The look of a check that sends one request to a point. -/
def oneLook (s : Sender) (request : Option Request) (shows : Response → Option Bool) : Look where
  requests := deliverable s (request.map fun q => [q])
  compare := reading shows

section OneProbe

variable {s : Sender} {p : Point} {request : Option Request} {shows : Response → Option Bool}
  {find : Response → Except Raised (Option (Candidate × List String))}

theorem heard_oneLook {outcome : Nat → Outcome} {responses : List Response} :
    (oneLook s request shows).Heard outcome responses ↔
      ∃ q r, request = some q ∧ s.refusal q = none ∧ outcome 0 = .response r ∧
        responses = [r] := by
  constructor
  · rintro ⟨qs, built, _, back⟩
    obtain ⟨asked, taken⟩ := deliverable_eq_some.1 built
    obtain ⟨q, rfl, rfl⟩ := Option.map_eq_some_iff.1 asked
    obtain ⟨r, rest, rfl, first, none_⟩ := List.map_eq_cons_iff.1 back
    rw [List.map_eq_nil_iff.1 none_]
    exact ⟨q, r, rfl, taken q (List.mem_singleton_self q), first.symm, rfl⟩
  · rintro ⟨q, r, rfl, taken, first, rfl⟩
    refine ⟨[q], deliverable_eq_some.2 ⟨rfl, ?_⟩, List.cons_ne_nil _ _, ?_⟩
    · intro q' mem
      rw [List.mem_singleton.1 mem]
      exact taken
    · exact congrArg (fun x => [x]) first.symm

/-- The sender does not take the request, or the response cannot be read. -/
def Breaks (s : Sender) (p : Point) (request : Option Request)
    (shows : Response → Option Bool) : Prop :=
  ∃ q, request = some q ∧ (s.refusal q ≠ none ∨ ∃ r, p.outcome 0 = .response r ∧ shows r = none)

theorem sendOrGap_of_refusal {q : Request} {i : Insertion} {outcome : Outcome} {raised : Raised}
    (h : s.refusal q = some raised) : sendOrGap s q i outcome = .error raised := by
  delta sendOrGap Sender.get
  rw [h]

theorem sendOrGap_of_response {q : Request} {i : Insertion} {r : Response}
    (h : s.refusal q = none) : sendOrGap s q i (.response r) = .ok (some r, []) := by
  delta sendOrGap Sender.get
  rw [h]

theorem sendOrGap_of_refused {q : Request} {i : Insertion} {reason : String}
    (h : s.refusal q = none) : sendOrGap s q i (.refused reason) =
      .ok (none, [s!"{i.name}: probe refused ({reason})"]) := by
  delta sendOrGap Sender.get
  rw [h]

theorem answered_iff {r : Response} : Look.answered r = true ↔ unanswered r = none := by
  rw [Look.answered, unanswered]
  cases r.status with
  | none => exact iff_of_false Bool.false_ne_true (Option.some_ne_none _)
  | some status =>
      simp only [Option.any_some]
      cases anAnswer status with
      | true => exact iff_of_true rfl rfl
      | false => exact iff_of_false Bool.false_ne_true (Option.some_ne_none _)

theorem probeOnce_of_ok {q : Request} {r : Response}
    {found : Option (Candidate × List String)} (taken : s.refusal q = none)
    (back : p.outcome 0 = .response r) (look : find r = .ok found) :
    probeOnce s p (some q) find = .ok (readResponse p.insertion r found) := by
  delta probeOnce
  rw [back]
  simp only [sendOrGap_of_response taken, look]

theorem probeOnce_of_error {q : Request} {r : Response} {raised : Raised}
    (taken : s.refusal q = none) (back : p.outcome 0 = .response r)
    (look : find r = .error raised) : probeOnce s p (some q) find = .error raised := by
  delta probeOnce
  rw [back]
  simp only [sendOrGap_of_response taken, look]

theorem probeOnce_of_refusal {q : Request} {raised : Raised}
    (refusal : s.refusal q = some raised) : probeOnce s p (some q) find = .error raised := by
  delta probeOnce
  simp only [sendOrGap_of_refusal refusal]

theorem probeOnce_of_refused {q : Request} {reason : String} (taken : s.refusal q = none)
    (back : p.outcome 0 = .refused reason) : probeOnce s p (some q) find =
      .ok ⟨[], [s!"{p.insertion.name}: probe refused ({reason})"], false⟩ := by
  delta probeOnce
  rw [back]
  simp only [sendOrGap_of_refused taken]

theorem readResponse_of_unanswered {i : Insertion} {r : Response}
    (gap : unanswered r ≠ none) : (readResponse i r none).candidates = [] ∧
      (readResponse i r none).gaps ≠ [] := by
  obtain ⟨refusal, why⟩ := Option.ne_none_iff_exists'.1 gap
  rw [readResponse, why]
  exact ⟨rfl, List.cons_ne_nil _ _⟩

theorem readResponse_of_answered {i : Insertion} {r : Response} (answer : unanswered r = none) :
    readResponse i r none = ⟨[], [], true⟩ := by
  rw [readResponse, answer]

/-- A loop body that finds what the comparison shows, raises where it cannot compare, and
otherwise finds nothing. -/
theorem reads_probeOnce
    (shown : ∀ r, shows r = some true → ∀ x, find r = .ok x → x ≠ none)
    (nothing : ∀ r, shows r = some false → find r = .ok none)
    (broken : ∀ r, shows r = none → ∃ raised, find r = .error raised) :
    Reads (oneLook s request shows) p.outcome (probeOnce s p request find)
      (Breaks s p request shows) False := by
  -- a response that came back and shows nothing
  have clear : ∀ {q r}, request = some q → s.refusal q = none → p.outcome 0 = .response r →
      ¬ (oneLook s request shows).Found p.outcome → ¬ Breaks s p request shows →
      shows r = some false := by
    intro q r asked taken back none_ whole
    cases see : shows r with
    | none => exact absurd ⟨q, asked, .inr ⟨r, back, see⟩⟩ whole
    | some seen =>
        cases seen with
        | false => rfl
        | true =>
            exact absurd ⟨[r], heard_oneLook.2 ⟨q, r, asked, taken, back, rfl⟩, see⟩ none_
  refine ⟨?_, ?_, ?_, ?_, ?_, ?_⟩
  · rintro ⟨responses, heard, see⟩ reading read
    obtain ⟨q, r, rfl, taken, back, rfl⟩ := heard_oneLook.1 heard
    cases look : find r with
    | error raised =>
        rw [probeOnce_of_error taken back look] at read
        contradiction
    | ok x =>
        obtain ⟨⟨c, more⟩, rfl⟩ := Option.ne_none_iff_exists'.1 (shown r see x look)
        rw [probeOnce_of_ok taken back look] at read
        cases read
        exact List.cons_ne_nil _ _
  · rintro none_ ⟨q, rfl, refused | ⟨r, back, blind⟩⟩
    · obtain ⟨raised, refusal⟩ := Option.ne_none_iff_exists'.1 refused
      exact ⟨raised, probeOnce_of_refusal refusal⟩
    · cases refusal : s.refusal q with
      | some raised =>
          exact ⟨raised, probeOnce_of_refusal refusal⟩
      | none =>
          obtain ⟨raised, look⟩ := broken r blind
          exact ⟨raised, probeOnce_of_error refusal back look⟩
  · intro none_ whole unanswered_
    cases asked : request with
    | none => exact ⟨_, rfl, rfl, List.cons_ne_nil _ _⟩
    | some q =>
        have taken : s.refusal q = none := by
          by_contra refused
          exact whole ⟨q, asked, .inl refused⟩
        cases back : p.outcome 0 with
        | refused reason =>
            exact ⟨_, probeOnce_of_refused taken back, rfl, List.cons_ne_nil _ _⟩
        | response r =>
            have see := clear asked taken back none_ whole
            have gap : unanswered r ≠ none := by
              intro answers
              apply unanswered_
              refine ⟨[r], heard_oneLook.2 ⟨q, r, asked, taken, back, rfl⟩, ?_⟩
              intro r' mem
              rw [List.mem_singleton.1 mem]
              exact answered_iff.2 answers
            exact ⟨_, probeOnce_of_ok taken back (nothing r see),
              readResponse_of_unanswered gap⟩
  · rintro none_ whole ⟨responses, heard, answers⟩
    obtain ⟨q, r, asked, taken, back, rfl⟩ := heard_oneLook.1 heard
    have see := clear asked taken back none_ whole
    have answer := answered_iff.1 (answers r (List.mem_singleton_self r))
    rw [asked, probeOnce_of_ok taken back (nothing r see), readResponse_of_answered answer]
  · rintro none_ whole ⟨responses, heard, answers⟩
    obtain ⟨q, r, asked, taken, back, rfl⟩ := heard_oneLook.1 heard
    have see := clear asked taken back none_ whole
    exact iff_of_true ⟨[r], heard, answers, see⟩ not_false
  · rintro ⟨q, asked, breaks⟩ ⟨responses, heard, _, see⟩
    obtain ⟨q', r, asked', taken, back, rfl⟩ := heard_oneLook.1 heard
    rw [asked] at asked'
    cases asked'
    rcases breaks with refused | ⟨r', back', blind⟩
    · exact refused taken
    · rw [back] at back'
      cases back'
      change shows r = some false at see
      rw [blind] at see
      contradiction

end OneProbe

/-- What a builder answered, if it did not raise. -/
def built {α : Type} : Except Raised (Option α) → Option α
  | .ok x => x
  | .error _ => none

section Checks

variable {bracketed : List Char → Bool} {surface : Surface} {s : Sender} {p : Point}

/-- A candidate is built or the check raises; it never passes for nothing found. -/
theorem report_ne_none {c : Except Raised Candidate} {gaps : List String}
    {x : Option (Candidate × List String)} (h : report c gaps = .ok x) : x ≠ none := by
  cases c with
  | error raised => contradiction
  | ok c =>
      cases h
      exact Option.some_ne_none _

theorem mem_kinds {i : Insertion} (h : i.kind ∈ SqlError.insertionKinds) :
    i.kind = .query ∨ i.kind = .pathSegment := by
  rcases List.mem_cons.1 h with query | segment
  · exact .inl query
  · exact .inr (List.mem_singleton.1 segment)

theorem probePath_ok {path template value : String} {i : Insertion}
    (kind : i.kind ∈ SqlError.insertionKinds) :
    ∃ request, probePath path template i value = .ok request := by
  rw [probePath]
  rcases mem_kinds kind with query | segment
  · rw [query]
    exact ⟨_, rfl⟩
  · rw [segment]
    exact ⟨_, rfl⟩

namespace ReflectedInput

def request (surface : Surface) (s : Sender) (p : Point) : Option Request :=
  built (forInsertion s.path surface.pathTemplate p.insertion (p.minted 0))

/-- The marker is in the response or it is not. -/
def shows (p : Point) (r : Response) : Option Bool := some (reflected r (p.minted 0))

theorem forInsertion_ok {path template value : String} {i : Insertion}
    (kind : selects i = true) : ∃ request, forInsertion path template i value = .ok request := by
  have known : i.kind ∈ insertionKinds := of_decide_eq_true kind
  rw [forInsertion]
  cases at_ : i.kind with
  | bodyForm =>
      rw [at_] at known
      exact absurd known (by decide)
  | bodyJson =>
      rw [at_] at known
      exact absurd known (by decide)
  | _ => exact ⟨_, rfl⟩

theorem reads (sel : selects p.insertion = true) :
    Reads (oneLook s (request surface s p) (shows p)) p.outcome (examine surface s p)
      (Breaks s p (request surface s p) (shows p)) False := by
  obtain ⟨q, asked⟩ : ∃ q, forInsertion s.path surface.pathTemplate p.insertion (p.minted 0) =
      .ok q := forInsertion_ok sel
  rw [request, examine, asked]
  apply reads_probeOnce
  · intro r seen x found
    rw [escalate, Option.some.inj seen] at found
    cases again : forInsertion s.path surface.pathTemplate p.insertion
        (metaChars ++ p.minted 1 ++ metaChars) with
    | error raised =>
        simp only [again] at found
        contradiction
    | ok q =>
        cases q with
        | none =>
            simp only [again] at found
            contradiction
        | some q =>
            simp only [again] at found
            cases sent : sendOrGap s q p.insertion (p.outcome 1) with
            | error raised =>
                simp only [sent] at found
                contradiction
            | ok sent' =>
                simp only [sent] at found
                exact report_ne_none found
  · intro r unseen
    rw [escalate, Option.some.inj unseen]
    rfl
  · exact nofun

end ReflectedInput

/-- An entry of the table is in the response or none is. -/
def showsEntry (table : List (String × String)) (r : Response) : Option Bool :=
  some (firstSignature table r).isSome

theorem reads_matchTable {table : List (String × String)} {candidate : Except Raised Candidate}
    {request : Option Request} :
    Reads (oneLook s request (showsEntry table)) p.outcome
      (probeOnce s p request (matchTable table candidate))
      (Breaks s p request (showsEntry table)) False := by
  apply reads_probeOnce
  · intro r seen x found
    obtain ⟨entry, hit⟩ := Option.isSome_iff_exists.1 (Option.some.inj seen)
    rw [matchTable, hit] at found
    exact report_ne_none found
  · intro r unseen
    have miss := Option.not_isSome_iff_eq_none.1 (ne_true_of_eq_false (Option.some.inj unseen))
    rw [matchTable, miss]
  · exact nofun

namespace SqlError

def request (surface : Surface) (s : Sender) (p : Point) : Option Request :=
  (built (probePath s.path surface.pathTemplate p.insertion (probeValue p))).map
    fun path => { path := path }

theorem reads (sel : selects p.insertion = true) :
    Reads (oneLook s (request surface s p) (showsEntry signatures)) p.outcome
      (examine surface s p) (Breaks s p (request surface s p) (showsEntry signatures)) False := by
  obtain ⟨q, asked⟩ : ∃ q, probePath s.path surface.pathTemplate p.insertion (probeValue p) =
      .ok q := probePath_ok (of_decide_eq_true sel)
  rw [request, examine, asked]
  exact reads_matchTable

end SqlError

namespace PathTraversal

def request (surface : Surface) (s : Sender) (p : Point) : Option Request :=
  (built (probePath s.path surface.pathTemplate p.insertion traversalPayload)).map
    fun path => { path := path }

theorem reads (sel : selects p.insertion = true) :
    Reads (oneLook s (request surface s p) (showsEntry signatures)) p.outcome
      (examine surface s p) (Breaks s p (request surface s p) (showsEntry signatures)) False := by
  obtain ⟨q, asked⟩ : ∃ q, probePath s.path surface.pathTemplate p.insertion
      traversalPayload = .ok q :=
    probePath_ok (of_decide_eq_true (Bool.and_eq_true_iff.1 sel).1)
  rw [request, examine, asked]
  exact reads_matchTable

end PathTraversal

namespace OpenRedirect

def request (s : Sender) (p : Point) : Option Request :=
  some { path := queryPath s.path p.insertion.name markerUrl }

/-- A `Location` that is no reference at all is not compared. -/
def shows (bracketed : List Char → Bool) (r : Response) : Option Bool :=
  match redirectHost bracketed r with
  | .error _ => none
  | .ok host => some (host.map lower = some markerHost.toList)

theorem reads : Reads (oneLook s (request s p) (shows bracketed)) p.outcome
    (examine bracketed surface s p) (Breaks s p (request s p) (shows bracketed)) False := by
  apply reads_probeOnce
  · intro r seen x found
    cases host : redirectHost bracketed r with
    | error raised =>
        rw [matchResponse, host] at found
        contradiction
    | ok host' =>
        simp only [shows, host] at seen
        simp only [matchResponse, host] at found
        rw [if_pos (of_decide_eq_true (Option.some.inj seen))] at found
        exact report_ne_none found
  · intro r unseen
    cases host : redirectHost bracketed r with
    | error raised =>
        simp only [shows, host] at unseen
        contradiction
    | ok host' =>
        simp only [shows, host] at unseen
        simp only [matchResponse, host]
        rw [if_neg (of_decide_eq_false (Option.some.inj unseen))]
  · intro r blind
    cases host : redirectHost bracketed r with
    | error raised => exact ⟨.badUrl, by simp only [matchResponse, host]⟩
    | ok host' =>
        simp only [shows, host] at blind
        contradiction

end OpenRedirect

end Checks

end Hx.Checks
