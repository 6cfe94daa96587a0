import Hx.Checks.Looks

/-!
# The check that compares two probes, and what all five come to

A pair of bodies too large to diff is one that was not compared. `sql_behaviour` answers
such a pair as if nothing had changed, which is what keeps it from what the four others
do: `clean` after every point was answered and compared, and `inconclusive` when one was
not.
-/

namespace Hx.Checks

open Hx.Python

section Checks

variable {bracketed : List Char → Bool} {surface : Surface} {s : Sender} {p : Point}

namespace SqlBehaviour

/-- The pair of requests, if both can be built. -/
def requests (surface : Surface) (s : Sender) (p : Point) : Option (List Request) :=
  match built (probePath s.path surface.pathTemplate p.insertion (p.minted 0 ++ "'")),
    built (probePath s.path surface.pathTemplate p.insertion (p.minted 0 ++ "''")) with
  | some first, some second => some [{ path := first }, { path := second }]
  | _, _ => none

/-- The comparison the check is for: a pair of bodies that was not diffed was not
compared. -/
def shows : List Response → Option Bool
  | [quoted, escaped] =>
      let d := against escaped.status escaped.body quoted.status quoted.body
      if d.statusChanged || decide (minLenDelta ≤ d.lenDelta.natAbs) then some true
      else d.newTokens.map fun fresh => !fresh.isEmpty
  | _ => none

def look (surface : Surface) (s : Sender) (p : Point) : Look where
  requests := deliverable s (requests surface s p)
  compare := shows

theorem compare_look : (look surface s p).compare = shows := rfl

/-- The sender does not take the first probe, or answers it and does not take the second. -/
def PairBreaks (surface : Surface) (s : Sender) (p : Point) : Prop :=
  ∃ first second, requests surface s p = some [first, second] ∧
    (s.refusal first ≠ none ∨
      (∃ quoted, p.outcome 0 = .response quoted) ∧ s.refusal second ≠ none)

/-- One of the two bodies is too large to diff. -/
def TooLarge (p : Point) : Prop :=
  ∃ quoted escaped, p.outcome 0 = .response quoted ∧ p.outcome 1 = .response escaped ∧
    (maxDiffBytes < quoted.body.length ∨ maxDiffBytes < escaped.body.length)

theorem exists_pair {qs : List Request} (asked : requests surface s p = some qs) :
    ∃ first second, qs = [first, second] := by
  rw [requests] at asked
  split at asked
  · cases asked
    exact ⟨_, _, rfl⟩
  · contradiction

theorem heard_look {outcome : Nat → Outcome} {responses : List Response} :
    (look surface s p).Heard outcome responses ↔
      ∃ first second quoted escaped, requests surface s p = some [first, second] ∧
        (s.refusal first = none ∧ s.refusal second = none) ∧
        (outcome 0 = .response quoted ∧ outcome 1 = .response escaped) ∧
        responses = [quoted, escaped] := by
  constructor
  · rintro ⟨qs, built_, _, back⟩
    obtain ⟨asked, taken⟩ := deliverable_eq_some.1 built_
    obtain ⟨first, second, rfl⟩ := exists_pair asked
    obtain ⟨quoted, rest, rfl, one, back⟩ := List.map_eq_cons_iff.1 back
    obtain ⟨escaped, rest, rfl, two, back⟩ := List.map_eq_cons_iff.1 back
    rw [List.map_eq_nil_iff.1 back]
    exact ⟨first, second, quoted, escaped, asked,
      ⟨taken first List.mem_cons_self, taken second (List.mem_cons_of_mem _ List.mem_cons_self)⟩,
      ⟨one.symm, two.symm⟩, rfl⟩
  · rintro ⟨first, second, quoted, escaped, asked, ⟨taken, taken'⟩, ⟨one, two⟩, rfl⟩
    refine ⟨[first, second], deliverable_eq_some.2 ⟨asked, ?_⟩, List.cons_ne_nil _ _, ?_⟩
    · intro q mem
      rcases List.mem_cons.1 mem with rfl | mem
      · exact taken
      · rw [List.mem_singleton.1 mem]
        exact taken'
    · change [Outcome.response quoted, .response escaped] = [outcome 0, outcome 1]
      rw [one, two]

theorem examine_of_requests {first second : Request}
    (asked : requests surface s p = some [first, second]) :
    examine surface s p = sendPair surface s p first second := by
  rw [requests] at asked
  rw [examine]
  cases one : probePath s.path surface.pathTemplate p.insertion (p.minted 0 ++ "'") with
  | error raised =>
      rw [one] at asked
      contradiction
  | ok a =>
      cases two : probePath s.path surface.pathTemplate p.insertion (p.minted 0 ++ "''") with
      | error raised =>
          rw [one, two] at asked
          cases a <;> contradiction
      | ok b =>
          rw [one, two] at asked
          cases a with
          | none => contradiction
          | some a =>
              cases b with
              | none => contradiction
              | some b =>
                  cases asked
                  rfl

theorem examine_of_unbuildable (sel : selects p.insertion = true)
    (unbuilt : requests surface s p = none) :
    examine surface s p = .ok ⟨[], [unbuildable p.insertion], false⟩ := by
  obtain ⟨a, one⟩ : ∃ a, probePath s.path surface.pathTemplate p.insertion
      (p.minted 0 ++ "'") = .ok a := probePath_ok (of_decide_eq_true sel)
  obtain ⟨b, two⟩ : ∃ b, probePath s.path surface.pathTemplate p.insertion
      (p.minted 0 ++ "''") = .ok b := probePath_ok (of_decide_eq_true sel)
  rw [requests, one, two] at unbuilt
  rw [examine, one]
  cases a with
  | none => rfl
  | some a =>
      rw [two]
      cases b with
      | none => rfl
      | some b => contradiction

section Pair

variable {first second : Request} {quoted escaped : Response}

theorem sendPair_of_refusal {raised : Raised} (refusal : s.refusal first = some raised) :
    sendPair surface s p first second = .error raised := by
  rw [sendPair, sendOrGap_of_refusal refusal]

theorem sendPair_of_refused {reason : String} (taken : s.refusal first = none)
    (back : p.outcome 0 = .refused reason) : sendPair surface s p first second =
      .ok ⟨[], [s!"{p.insertion.name}: probe refused ({reason})"], false⟩ := by
  rw [sendPair, back, sendOrGap_of_refused taken]

theorem sendPair_of_second_refusal {raised : Raised} (taken : s.refusal first = none)
    (back : p.outcome 0 = .response quoted) (refusal : s.refusal second = some raised) :
    sendPair surface s p first second = .error raised := by
  rw [sendPair, back, sendOrGap_of_response taken, sendOrGap_of_refusal refusal]

theorem sendPair_of_second_refused {reason : String} (taken : s.refusal first = none)
    (back : p.outcome 0 = .response quoted) (taken' : s.refusal second = none)
    (back' : p.outcome 1 = .refused reason) : sendPair surface s p first second =
      .ok ⟨[], [s!"{p.insertion.name}: probe refused ({reason})"], false⟩ := by
  rw [sendPair, back, back', sendOrGap_of_response taken, sendOrGap_of_refused taken']

theorem sendPair_of_responses (taken : s.refusal first = none)
    (back : p.outcome 0 = .response quoted) (taken' : s.refusal second = none)
    (back' : p.outcome 1 = .response escaped) :
    sendPair surface s p first second = compare surface p quoted escaped := by
  rw [sendPair, back, back', sendOrGap_of_response taken, sendOrGap_of_response taken']

end Pair

/-! ### The comparison -/

section Compare

variable {quoted escaped : Response}

theorem newTokens_eq_none (status status' : Option Int) {body body' : Bytes} :
    (against status body status' body').newTokens = none ↔
      maxDiffBytes < body'.length ∨ maxDiffBytes < body.length := by
  rw [against]
  split
  · exact iff_of_true rfl (by assumption)
  · exact iff_of_false (Option.some_ne_none _) (by assumption)

theorem shows_of_material {difference : Difference} (h : material (against escaped.status
    escaped.body quoted.status quoted.body) = some difference) :
    shows [quoted, escaped] = some true := by
  rw [material] at h
  rw [shows]
  split at h
  · rename_i changed
    simp [changed]
  · split at h
    · rename_i long
      simp [long]
    · split at h
      · rename_i fresh more some_
        rw [some_]
        split <;> rfl
      · contradiction

/-- Without a difference the comparison is whether there was one. -/
theorem shows_of_immaterial (h : material (against escaped.status escaped.body quoted.status
    quoted.body) = none) : shows [quoted, escaped] =
      (against escaped.status escaped.body quoted.status quoted.body).newTokens.map
        fun _ => false := by
  rw [material] at h
  rw [shows]
  split at h
  · contradiction
  · rename_i same
    split at h
    · contradiction
    · rename_i short
      rw [if_neg (by simp [same, short])]
      cases tokens : (against escaped.status escaped.body quoted.status
          quoted.body).newTokens with
      | none => rfl
      | some fresh =>
          rw [tokens] at h
          cases fresh with
          | nil => rfl
          | cons token more => contradiction

theorem shows_eq_false_iff (h : material (against escaped.status escaped.body quoted.status
    quoted.body) = none) : shows [quoted, escaped] = some false ↔
      ¬ (maxDiffBytes < quoted.body.length ∨ maxDiffBytes < escaped.body.length) := by
  rw [shows_of_immaterial h, ← newTokens_eq_none escaped.status quoted.status]
  cases (against escaped.status escaped.body quoted.status quoted.body).newTokens with
  | none => exact iff_of_false nofun (not_not.2 rfl)
  | some fresh => exact iff_of_true rfl nofun

theorem not_shows_of_immaterial (h : material (against escaped.status escaped.body
    quoted.status quoted.body) = none) : shows [quoted, escaped] ≠ some true := by
  rw [shows_of_immaterial h]
  cases (against escaped.status escaped.body quoted.status quoted.body).newTokens with
  | none => exact nofun
  | some fresh => exact nofun

theorem immaterial_or_shows : material (against escaped.status escaped.body quoted.status
    quoted.body) = none ∨ shows [quoted, escaped] = some true := by
  cases seen : material (against escaped.status escaped.body quoted.status quoted.body) with
  | none => exact .inl rfl
  | some difference => exact .inr (shows_of_material seen)

theorem status_of_immaterial (h : material (against escaped.status escaped.body quoted.status
    quoted.body) = none) : escaped.status = quoted.status := by
  rw [material] at h
  split at h
  · contradiction
  · rename_i same
    have : decide (escaped.status ≠ quoted.status) = false := by
      rw [against] at same
      split at same <;> exact eq_false_of_ne_true same
    exact not_not.1 (of_decide_eq_false this)

theorem compare_of_material {r : Reading} {difference : Difference}
    (seen : material (against escaped.status escaped.body quoted.status quoted.body) =
      some difference) (h : compare surface p quoted escaped = .ok r) : r.candidates ≠ [] := by
  rw [compare, seen] at h
  cases cited : cite surface issueType .high .tentative p.insertion "CWE-89"
      (p.minted 0 ++ "'") with
  | error raised =>
      simp only [cited] at h
      contradiction
  | ok c =>
      simp only [cited] at h
      cases h
      exact List.cons_ne_nil _ _

end Compare

/-! ### How the point is read -/

theorem found_of_heard {responses : List Response}
    (heard : (look surface s p).Heard p.outcome responses)
    (none_ : ¬ (look surface s p).Found p.outcome) :
    ∃ quoted escaped, responses = [quoted, escaped] ∧
      material (against escaped.status escaped.body quoted.status quoted.body) = none := by
  obtain ⟨first, second, quoted, escaped, _, _, _, rfl⟩ := heard_look.1 heard
  refine ⟨quoted, escaped, rfl, ?_⟩
  exact immaterial_or_shows.resolve_right fun shown => none_ ⟨_, heard, shown⟩

/-- Two responses that differ in nothing have one status, so they are answers or not
together. -/
theorem unanswered_iff {quoted escaped : Response} (h : material (against escaped.status
    escaped.body quoted.status quoted.body) = none) :
    unanswered escaped = none ↔ unanswered quoted = none := by
  rw [← answered_iff, ← answered_iff, Look.answered, status_of_immaterial h]
  exact Iff.rfl

theorem compare_of_answered {quoted escaped : Response} (h : material (against escaped.status
    escaped.body quoted.status quoted.body) = none) (answer : unanswered quoted = none) :
    compare surface p quoted escaped = .ok ⟨[], [], true⟩ := by
  rw [compare, h, answer]
  rfl

theorem compare_of_unanswered {quoted escaped : Response} (h : material (against
    escaped.status escaped.body quoted.status quoted.body) = none)
    (gap : unanswered quoted ≠ none) :
    compare surface p quoted escaped = .ok ⟨[], [bothRefused p.insertion quoted], true⟩ := by
  have both : (unanswered quoted).isSome = true ∧ (unanswered escaped).isSome = true :=
    ⟨Option.isSome_iff_ne_none.2 gap,
      Option.isSome_iff_ne_none.2 fun answer => gap ((unanswered_iff h).1 answer)⟩
  rw [compare, h]
  simp only [both.1, both.2, Bool.and_self, if_true]

/-- A point that is not answered leaves a gap. -/
theorem reads_gap (sel : selects p.insertion = true)
    (none_ : ¬ (look surface s p).Found p.outcome) (whole : ¬ PairBreaks surface s p)
    (unanswered_ : ¬ (look surface s p).AllAnswered p.outcome) :
    ∃ r, examine surface s p = .ok r ∧ r.candidates = [] ∧ r.gaps ≠ [] := by
  cases asked : requests surface s p with
  | none => exact ⟨_, examine_of_unbuildable sel asked, rfl, List.cons_ne_nil _ _⟩
  | some qs =>
      obtain ⟨first, second, rfl⟩ := exists_pair asked
      have taken : s.refusal first = none := by
        by_contra refused
        exact whole ⟨first, second, asked, .inl refused⟩
      rw [examine_of_requests asked]
      cases back : p.outcome 0 with
      | refused reason =>
          exact ⟨_, sendPair_of_refused taken back, rfl, List.cons_ne_nil _ _⟩
      | response quoted =>
          have taken' : s.refusal second = none := by
            by_contra refused
            exact whole ⟨first, second, asked, .inr ⟨⟨quoted, back⟩, refused⟩⟩
          cases back' : p.outcome 1 with
          | refused reason =>
              exact ⟨_, sendPair_of_second_refused taken back taken' back', rfl,
                List.cons_ne_nil _ _⟩
          | response escaped =>
              have heard : (look surface s p).Heard p.outcome [quoted, escaped] :=
                heard_look.2
                  ⟨first, second, quoted, escaped, asked, ⟨taken, taken'⟩, ⟨back, back'⟩, rfl⟩
              obtain ⟨_, _, same, seen⟩ := found_of_heard heard none_
              cases same
              have gap : unanswered quoted ≠ none := by
                intro answer
                apply unanswered_
                refine ⟨_, heard, ?_⟩
                intro r mem
                rcases List.mem_cons.1 mem with rfl | mem
                · exact answered_iff.2 answer
                · rw [List.mem_singleton.1 mem]
                  exact answered_iff.2 ((unanswered_iff seen).2 answer)
              exact ⟨_, (sendPair_of_responses taken back taken' back').trans
                (compare_of_unanswered seen gap), rfl, List.cons_ne_nil _ _⟩

theorem reads (sel : selects p.insertion = true) :
    Reads (look surface s p) p.outcome (examine surface s p) (PairBreaks surface s p)
      (TooLarge p) := by
  refine ⟨?_, ?_, ?_, ?_, ?_, ?_⟩
  · rintro ⟨responses, heard, shown⟩ r read
    obtain ⟨first, second, quoted, escaped, asked, taken, back, rfl⟩ := heard_look.1 heard
    rw [examine_of_requests asked,
      sendPair_of_responses taken.1 back.1 taken.2 back.2] at read
    cases seen : material (against escaped.status escaped.body quoted.status quoted.body) with
    | some difference => exact compare_of_material seen read
    | none => exact absurd shown (not_shows_of_immaterial seen)
  · rintro _ ⟨first, second, asked, refused | ⟨⟨quoted, back⟩, refused⟩⟩
    · obtain ⟨raised, refusal⟩ := Option.ne_none_iff_exists'.1 refused
      exact ⟨raised, (examine_of_requests asked).trans (sendPair_of_refusal refusal)⟩
    · obtain ⟨raised, refusal⟩ := Option.ne_none_iff_exists'.1 refused
      cases taken : s.refusal first with
      | some raised' =>
          exact ⟨raised', (examine_of_requests asked).trans (sendPair_of_refusal taken)⟩
      | none =>
          exact ⟨raised, (examine_of_requests asked).trans
            (sendPair_of_second_refusal taken back refusal)⟩
  · intro none_ whole unanswered_
    exact reads_gap sel none_ whole unanswered_
  · rintro none_ _ ⟨responses, heard, answers⟩
    obtain ⟨first, second, quoted, escaped, asked, taken, back, rfl⟩ := heard_look.1 heard
    obtain ⟨quoted', escaped', same, seen⟩ := found_of_heard heard none_
    cases same
    have answer := answered_iff.1 (answers quoted List.mem_cons_self)
    rw [examine_of_requests asked, sendPair_of_responses taken.1 back.1 taken.2 back.2]
    exact compare_of_answered seen answer
  · rintro none_ _ ⟨responses, heard, answers⟩
    obtain ⟨first, second, quoted, escaped, asked, taken, back, rfl⟩ := heard_look.1 heard
    obtain ⟨quoted', escaped', same, seen⟩ := found_of_heard heard none_
    cases same
    constructor
    · rintro ⟨responses, heard', _, compared⟩ ⟨q, e, one, two, large⟩
      obtain ⟨_, _, q', e', _, _, back', rfl⟩ := heard_look.1 heard'
      rw [back.1] at one back'
      rw [back.2] at two back'
      cases one
      cases two
      cases back'.1
      cases back'.2
      exact (shows_eq_false_iff seen).1 compared large
    · intro small
      refine ⟨_, heard, answers, (shows_eq_false_iff seen).2 ?_⟩
      intro large
      exact small ⟨quoted, escaped, back.1, back.2, large⟩
  · rintro ⟨first, second, asked, breaks⟩ ⟨responses, heard, _, _⟩
    obtain ⟨first', second', quoted, escaped, asked', taken, back, rfl⟩ := heard_look.1 heard
    rw [asked] at asked'
    cases asked'
    rcases breaks with refused | ⟨_, refused⟩
    · exact refused taken.1
    · exact refused taken.2

end SqlBehaviour

/-! ## The five checks -/

namespace ActiveCheck

variable (c : ActiveCheck)

def look (bracketed : List Char → Bool) (surface : Surface) (s : Sender) (p : Point) : Look :=
  match c with
  | reflectedInput => oneLook s (ReflectedInput.request surface s p) (ReflectedInput.shows p)
  | sqlError => oneLook s (SqlError.request surface s p) (showsEntry SqlError.signatures)
  | sqlBehaviour => SqlBehaviour.look surface s p
  | pathTraversal =>
      oneLook s (PathTraversal.request surface s p) (showsEntry PathTraversal.signatures)
  | openRedirect => oneLook s (OpenRedirect.request s p) (OpenRedirect.shows bracketed)

/-- A probe the sender refuses to put on the wire, or for `open_redirect` a `Location`
that is no reference. -/
def raises (bracketed : List Char → Bool) (surface : Surface) (s : Sender) (p : Point) : Prop :=
  match c with
  | reflectedInput => Breaks s p (ReflectedInput.request surface s p) (ReflectedInput.shows p)
  | sqlError => Breaks s p (SqlError.request surface s p) (showsEntry SqlError.signatures)
  | sqlBehaviour => SqlBehaviour.PairBreaks surface s p
  | pathTraversal =>
      Breaks s p (PathTraversal.request surface s p) (showsEntry PathTraversal.signatures)
  | openRedirect => Breaks s p (OpenRedirect.request s p) (OpenRedirect.shows bracketed)

/-- A body `sql_behaviour` does not diff. -/
def tooLarge (p : Point) : Prop :=
  match c with
  | sqlBehaviour => SqlBehaviour.TooLarge p
  | _ => False

theorem reads (sel : c.selects p.insertion = true) :
    Reads (c.look bracketed surface s p) p.outcome (c.examine bracketed surface s p)
      (c.raises bracketed surface s p) (c.tooLarge p) := by
  cases c with
  | reflectedInput => exact ReflectedInput.reads sel
  | sqlError => exact SqlError.reads sel
  | sqlBehaviour => exact SqlBehaviour.reads sel
  | pathTraversal => exact PathTraversal.reads sel
  | openRedirect => exact OpenRedirect.reads

/-- A check says `clean` only after every point was answered and compared, and
`inconclusive` where one was not and nothing was found, exactly if some point shows the
issue or nothing raises and, with every point answered, no pair of bodies is too large
to diff. -/
theorem candid_iff (points : List Point) :
    Candid c.selects (c.look bracketed surface s) points
        (c.probes bracketed surface s points) ↔
      Comparable c.selects (c.look bracketed surface s) (c.raises bracketed surface s)
        c.tooLarge points :=
  candid_iff_comparable fun _ sel => c.reads sel

end ActiveCheck

/-! ## Two bodies of two megabytes and one byte -/

/-- A body of one long token. -/
def large (x : UInt8) : Response := ⟨some 200, [], List.replicate (maxDiffBytes + 1) x⟩

/-- The two spellings of the quote draw different pages of one size. -/
def largePair : Point where
  insertion := ⟨.query, "q", by decide⟩
  minted _ := "m"
  outcome k := .response (if k = 0 then large 101 else large 111)

theorem length_large {x : UInt8} : maxDiffBytes < (large x).body.length := by
  rw [large, List.length_replicate]
  exact Nat.lt_succ_self _

theorem material_largePair : SqlBehaviour.material (against (large 111).status
    (large 111).body (large 101).status (large 101).body) = none := by
  simp [SqlBehaviour.material, against, large, SqlBehaviour.minLenDelta]

theorem requests_largePair : SqlBehaviour.requests ⟨"/", some "x1"⟩ ⟨"a.test", "/"⟩ largePair =
    some [{ path := queryPath "/" "q" "m'" }, { path := queryPath "/" "q" "m''" }] := rfl

/-- Nothing of the two pages was compared, and the check says `clean`. -/
theorem clean_of_largePair :
    ActiveCheck.sqlBehaviour.probes (fun _ => false) ⟨"/", some "x1"⟩ ⟨"a.test", "/"⟩
        [largePair] = .ok (.clean [SqlBehaviour.issueType]) ∧
      ¬ Candid ActiveCheck.sqlBehaviour.selects
        (ActiveCheck.sqlBehaviour.look (fun _ => false) ⟨"/", some "x1"⟩ ⟨"a.test", "/"⟩)
        [largePair] (ActiveCheck.sqlBehaviour.probes (fun _ => false) ⟨"/", some "x1"⟩
          ⟨"a.test", "/"⟩ [largePair]) := by
  have first : Sender.refusal ⟨"a.test", "/"⟩ { path := queryPath "/" "q" "m'" } = none := by
    decide
  have second : Sender.refusal ⟨"a.test", "/"⟩ { path := queryPath "/" "q" "m''" } = none := by
    decide
  have sel : ActiveCheck.sqlBehaviour.selects largePair.insertion = true := by decide
  have read : ActiveCheck.sqlBehaviour.examine (fun _ => false) ⟨"/", some "x1"⟩ ⟨"a.test", "/"⟩ largePair =
      .ok ⟨[], [], true⟩ := by
    refine (SqlBehaviour.examine_of_requests requests_largePair).trans ?_
    exact (SqlBehaviour.sendPair_of_responses first rfl second rfl).trans
      (SqlBehaviour.compare_of_answered material_largePair rfl)
  have clean : ActiveCheck.sqlBehaviour.probes (fun _ => false) ⟨"/", some "x1"⟩
      ⟨"a.test", "/"⟩ [largePair] = .ok (.clean [SqlBehaviour.issueType]) := by
    have swept := sweep_singleton (t := .none) sel read
    exact (conclude_of_ok swept).trans (answer_of_quiet rfl rfl rfl)
  refine ⟨clean, ?_⟩
  intro candid
  obtain ⟨responses, heard, _, compared⟩ :
      (SqlBehaviour.look ⟨"/", some "x1"⟩ ⟨"a.test", "/"⟩ largePair).Conclusive
        largePair.outcome := (candid.clean _ clean).2 largePair List.mem_cons_self sel
  obtain ⟨_, _, quoted, escaped, _, _, back, rfl⟩ := SqlBehaviour.heard_look.1 heard
  have one : large 101 = quoted := Outcome.response.inj back.1
  have two : large 111 = escaped := Outcome.response.inj back.2
  rw [← one, ← two, SqlBehaviour.compare_look] at compared
  exact (SqlBehaviour.shows_eq_false_iff material_largePair).1 compared (.inl length_large)

end Checks

end Hx.Checks
