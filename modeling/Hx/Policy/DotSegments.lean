import Hx.Library.Pieces
import Hx.Policy.Lengths

/-!
# Dot segments as RFC 3986 removes them

Section 5.2.4 rewrites an input buffer into an output buffer, one rule a round. On an absolute
path that is a walk over the segments, as `collapseDotSegments` does it. The two part where the
path ends in a dot segment behind an empty one: the RFC keeps the slash of the empty segment
and the slash that the dot segment stands for, the source keeps one of them.
-/

namespace Hx.Policy

open Hx.Java Hx.Library

/-! ## RFC 3986, section 5.2.4 -/

structure Buffers where
  input : JString
  output : JString

/-- The output without its last segment and the slash in front of it, if any. -/
def removeLast (output : JString) : JString := (output.rdropWhile fun c => c != slash).dropLast

/-- The first path segment, with the initial slash if there is one. -/
def firstSegment (input : JString) : JString :=
  input.take 1 ++ (input.drop 1).takeWhile fun c => c != slash

/-- One round of the loop, rules A to E. -/
def round (b : Buffers) : Buffers :=
  if (js "../").isPrefixOf b.input then ⟨b.input.drop 3, b.output⟩
  else if (js "./").isPrefixOf b.input then ⟨b.input.drop 2, b.output⟩
  else if (js "/./").isPrefixOf b.input then ⟨slash :: b.input.drop 3, b.output⟩
  else if b.input = js "/." then ⟨[slash], b.output⟩
  else if (js "/../").isPrefixOf b.input then ⟨slash :: b.input.drop 4, removeLast b.output⟩
  else if b.input = js "/.." then ⟨[slash], removeLast b.output⟩
  else if b.input = js "." ∨ b.input = js ".." then ⟨[], b.output⟩
  else ⟨b.input.drop (firstSegment b.input).length, b.output ++ firstSegment b.input⟩

/-- At most `n` rounds, while the input is not empty. -/
def rewrite : Nat → Buffers → Buffers
  | 0, b => b
  | n + 1, b => if b.input = [] then b else rewrite n (round b)

/-- `remove_dot_segments`. -/
def removeDotSegments (path : JString) : JString := (rewrite path.length ⟨path, []⟩).output

/-! ## The condition -/

/-- From the right, the nearest segment that is no dot segment and is removed by none of the
`..` behind it. -/
def survivor : Nat → List JString → Option JString
  | _, [] => none
  | removed, segment :: rest =>
      if segment = [dot] then survivor removed rest
      else if segment = [dot, dot] then survivor (removed + 1) rest
      else match removed with
        | 0 => some segment
        | removed + 1 => survivor removed rest

/-- The path ends in a dot segment, and the nearest segment that is left before it is empty. -/
def DotsAfterEmpty (path : JString) : Prop :=
  ((segments path).getLast?.any isDotSegment = true) ∧
    survivor 0 ((segments path).drop 1).reverse = some []

instance decidableDotsAfterEmpty (path : JString) : Decidable (DotsAfterEmpty path) :=
  inferInstanceAs (Decidable (_ ∧ _))

/-! ## Segments, each behind its slash -/

def slashed (parts : List JString) : JString := parts.flatMap fun part => slash :: part

@[simp] theorem slashed_nil : slashed [] = [] := rfl

@[simp] theorem slashed_cons (part : JString) (parts : List JString) :
    slashed (part :: parts) = slash :: (part ++ slashed parts) := rfl

@[simp] theorem slashed_append (parts more : List JString) :
    slashed (parts ++ more) = slashed parts ++ slashed more := List.flatMap_append

theorem slashed_eq_joined {parts : List JString} (nonempty : parts ≠ []) :
    slashed parts = slash :: joined parts := by
  induction parts with
  | nil => exact absurd rfl nonempty
  | cons part parts ih =>
      cases parts with
      | nil => simp [joined, List.intercalate]
      | cons next parts =>
          rw [slashed_cons, ih (List.cons_ne_nil _ _)]
          simp [joined, List.intercalate]

theorem segments_slash (rest : JString) : segments (slash :: rest) = [] :: segments rest := by
  simp [segments, List.splitOn_cons_eq_if_modifyHead]

/-- An absolute path is its segments, each behind its slash. -/
theorem slashed_segments (rest : JString) :
    slashed ((segments (slash :: rest)).drop 1) = slash :: rest := by
  rw [segments_slash, List.drop_one, List.tail_cons, slashed_eq_joined (segments_ne_nil rest),
    joined_segments]

/-! ## The walk of the source -/

/-- What one segment does to those that are kept. -/
def place (kept : List JString) (segment : JString) : List JString :=
  if segment = [dot] then kept
  else if segment = [dot, dot] then kept.dropLast
  else kept ++ [segment]

theorem resolveDots_eq (kept parts : List JString) :
    resolveDots kept parts = (parts.foldl place kept, parts.getLast?.any isDotSegment) := by
  induction kept, parts using resolveDots.induct with
  | case1 kept => rfl
  | case2 kept => simp [resolveDots, place, isDotSegment]
  | case3 kept rest nonempty ih =>
      rw [resolveDots, if_pos rfl, if_neg nonempty, ih, List.foldl_cons, place, if_pos rfl]
      obtain ⟨next, rest, rfl⟩ := List.exists_cons_of_ne_nil nonempty
      rw [List.getLast?_cons_cons]
  | case4 kept other => simp [resolveDots, place, isDotSegment]
  | case5 kept rest nonempty other ih =>
      rw [resolveDots, if_neg other, if_pos rfl, if_neg nonempty, ih, List.foldl_cons, place,
        if_neg other, if_pos rfl]
      obtain ⟨next, rest, rfl⟩ := List.exists_cons_of_ne_nil nonempty
      rw [List.getLast?_cons_cons]
  | case6 kept segment rest notDot notDots ih =>
      rw [resolveDots, if_neg notDot, if_neg notDots, ih, List.foldl_cons, place, if_neg notDot,
        if_neg notDots]
      cases rest with
      | nil => simp [isDotSegment, notDot, notDots]
      | cons next rest => rw [List.getLast?_cons_cons]

/-- No slash is in a segment. -/
def Unslashed (parts : List JString) : Prop := ∀ part ∈ parts, slash ∉ part

theorem place_unslashed {kept : List JString} {segment : JString} (clean : Unslashed kept)
    (own : slash ∉ segment) : Unslashed (place kept segment) := by
  rw [place]
  split
  · exact clean
  · split
    · exact fun part mem => clean part (List.dropLast_subset _ mem)
    · intro part mem
      obtain old | new := List.mem_append.1 mem
      · exact clean part old
      · exact List.mem_singleton.1 new ▸ own

/-! ## A round on segments -/

theorem removeLast_slashed {kept : List JString} (clean : Unslashed kept) :
    removeLast (slashed kept) = slashed kept.dropLast := by
  induction kept using List.reverseRecOn with
  | nil => rfl
  | append_singleton kept last _ =>
      have own : slash ∉ last := clean last (List.mem_append_right _ (List.mem_singleton_self _))
      have cut : (slashed (kept ++ [last])).rdropWhile (fun c => c != slash) =
          slashed kept ++ [slash] := by
        have inside : ∀ c ∈ last.reverse, (c != slash) = true := by
          intro c mem
          refine bne_iff_ne.2 ?_
          rintro rfl
          exact own (List.mem_reverse.1 mem)
        rw [List.rdropWhile, slashed_append, slashed_cons, slashed_nil, List.append_nil,
          List.reverse_append, List.reverse_cons, List.append_assoc,
          List.dropWhile_append_of_pos inside]
        simp
      rw [removeLast, cut, List.dropLast_concat, List.dropLast_concat]

/-- `/` and a piece of the RFC's rules is a prefix of the input only as a whole segment. -/
theorem isPrefixOf_segment {segment piece rest : JString} (own : slash ∉ segment)
    (clean : slash ∉ piece) (starts : rest = [] ∨ ∃ more, rest = slash :: more) :
    (slash :: (piece ++ [slash])).isPrefixOf (slash :: (segment ++ rest)) = true ↔
      segment = piece ∧ rest ≠ [] := by
  rw [List.isPrefixOf_iff_prefix, List.cons_prefix_cons, and_iff_right rfl]
  induction piece generalizing segment with
  | nil =>
      cases segment with
      | nil =>
          obtain rfl | ⟨more, rfl⟩ := starts
          · simp
          · simp
      | cons c segment =>
          have other : slash ≠ c := fun same => own (same ▸ List.mem_cons_self)
          simp [other]
  | cons d piece ih =>
      cases segment with
      | nil =>
          have other : d ≠ slash := fun same => clean (same ▸ List.mem_cons_self)
          obtain rfl | ⟨more, rfl⟩ := starts
          · simp
          · simp [other]
      | cons c segment =>
          have step := @ih segment (fun mem => own (List.mem_cons_of_mem _ mem))
            fun mem => clean (List.mem_cons_of_mem _ mem)
          rw [List.cons_append, List.cons_append, List.cons_prefix_cons, step, List.cons.injEq,
            and_assoc, eq_comm]

theorem slashed_starts (parts : List JString) :
    slashed parts = [] ∨ ∃ more, slashed parts = slash :: more := by
  cases parts with
  | nil => exact .inl rfl
  | cons part parts => exact .inr ⟨_, rfl⟩

theorem slashed_ne_nil {parts : List JString} : slashed parts ≠ [] ↔ parts ≠ [] := by
  cases parts with
  | nil => exact iff_of_false (fun h => h rfl) fun h => h rfl
  | cons part parts => exact iff_of_true (List.cons_ne_nil _ _) (List.cons_ne_nil _ _)

/-- A whole input is a piece of the RFC's rules only as its one segment. -/
theorem append_slashed_eq {segment piece : JString} {parts : List JString}
    (clean : slash ∉ piece) : segment ++ slashed parts = piece ↔ segment = piece ∧ parts = [] := by
  cases parts with
  | nil => simp
  | cons part parts =>
      refine iff_of_false (fun same => clean ?_) nofun
      rw [← same, slashed_cons]
      exact List.mem_append_right _ List.mem_cons_self

/-- What a round leaves of the input: a dot segment at its end becomes an empty one. -/
def left (segment : JString) (parts : List JString) : JString :=
  if isDotSegment segment && parts.isEmpty then [slash] else slashed parts

theorem not_isPrefixOf_slash (piece more : JString) :
    ¬ (dot :: piece).isPrefixOf (slash :: more) = true := by
  rw [List.isPrefixOf_iff_prefix, List.cons_prefix_cons]
  rintro ⟨same, -⟩
  exact absurd same (by decide)

theorem firstSegment_slashed {segment : JString} (own : slash ∉ segment) (parts : List JString) :
    firstSegment (slash :: (segment ++ slashed parts)) = slash :: segment := by
  have inside : ∀ c ∈ segment, (c != slash) = true := by
    intro c mem
    refine bne_iff_ne.2 ?_
    rintro rfl
    exact own mem
  have next : (slashed parts).takeWhile (fun c => c != slash) = [] := by
    cases parts with
    | nil => rfl
    | cons part parts => simp
  rw [firstSegment, List.take_one, List.head?_cons, List.drop_one, List.tail_cons,
    List.takeWhile_append_of_pos inside, next, List.append_nil]
  rfl

theorem round_slashed {kept parts : List JString} {segment : JString} (clean : Unslashed kept)
    (own : slash ∉ segment) :
    round ⟨slashed (segment :: parts), slashed kept⟩ =
      ⟨left segment parts, slashed (place kept segment)⟩ := by
  have dots : slash ∉ [dot, dot] := by decide
  have one : slash ∉ [dot] := by decide
  have before₁ : (js "/./").isPrefixOf (slash :: (segment ++ slashed parts)) = true ↔
      segment = [dot] ∧ slashed parts ≠ [] := isPrefixOf_segment own one (slashed_starts parts)
  have before₂ : (js "/../").isPrefixOf (slash :: (segment ++ slashed parts)) = true ↔
      segment = [dot, dot] ∧ slashed parts ≠ [] :=
    isPrefixOf_segment own dots (slashed_starts parts)
  have whole₁ : slash :: (segment ++ slashed parts) = js "/." ↔ segment = [dot] ∧ parts = [] :=
    (List.cons_inj_right slash).trans (append_slashed_eq one)
  have whole₂ : slash :: (segment ++ slashed parts) = js "/.." ↔
      segment = [dot, dot] ∧ parts = [] :=
    (List.cons_inj_right slash).trans (append_slashed_eq dots)
  have rooted : ¬ (slash :: (segment ++ slashed parts) = js "." ∨
      slash :: (segment ++ slashed parts) = js "..") := by
    rintro (same | same)
    · exact absurd (List.cons.inj same).1 (by decide)
    · exact absurd (List.cons.inj same).1 (by decide)
  rw [slashed_ne_nil] at before₁ before₂
  have parent : ¬ (js "../").isPrefixOf (slash :: (segment ++ slashed parts)) = true :=
    not_isPrefixOf_slash [dot, slash] _
  have here : ¬ (js "./").isPrefixOf (slash :: (segment ++ slashed parts)) = true :=
    not_isPrefixOf_slash [slash] _
  rw [round, left, place, slashed_cons]
  dsimp only
  rw [if_neg parent, if_neg here]
  by_cases single : segment = [dot]
  · cases parts with
    | nil =>
        rw [if_neg fun h => (before₁.1 h).2 rfl, if_pos (whole₁.2 ⟨single, rfl⟩), single]
        rfl
    | cons next parts =>
        rw [if_pos (before₁.2 ⟨single, List.cons_ne_nil _ _⟩), single]
        rfl
  · rw [if_neg fun h => single (before₁.1 h).1, if_neg fun h => single (whole₁.1 h).1,
      if_neg single]
    by_cases double : segment = [dot, dot]
    · rw [removeLast_slashed clean, if_pos double]
      cases parts with
      | nil =>
          rw [if_neg fun h => (before₂.1 h).2 rfl, if_pos (whole₂.2 ⟨double, rfl⟩), double]
          rfl
      | cons next parts =>
          rw [if_pos (before₂.2 ⟨double, List.cons_ne_nil _ _⟩), double]
          rfl
    · rw [if_neg fun h => double (before₂.1 h).1, if_neg fun h => double (whole₂.1 h).1,
        if_neg rooted, if_neg double, firstSegment_slashed own]
      have plain : isDotSegment segment = false := by
        simp [isDotSegment, single, double]
      rw [plain, Bool.false_and, if_neg Bool.false_ne_true]
      simp

theorem rewrite_succ {n : Nat} (input output : JString) (more : input ≠ []) :
    rewrite (n + 1) ⟨input, output⟩ = rewrite n (round ⟨input, output⟩) := if_neg more

theorem rewrite_nil (n : Nat) (output : JString) : rewrite n ⟨[], output⟩ = ⟨[], output⟩ := by
  cases n with
  | zero => rfl
  | succ n => rfl

/-- The RFC's answer on an absolute path: what the walk keeps, and a slash for a dot segment at
the end. -/
theorem rewrite_slashed {kept parts : List JString} {n : Nat} (clean : Unslashed kept)
    (own : Unslashed parts) (enough : (slashed parts).length ≤ n) :
    rewrite n ⟨slashed parts, slashed kept⟩ = ⟨[], slashed (parts.foldl place kept) ++
      if parts.getLast?.any isDotSegment then [slash] else []⟩ := by
  induction parts generalizing kept n with
  | nil =>
      rw [slashed_nil, rewrite_nil]
      simp
  | cons segment parts ih =>
      obtain ⟨first, rest⟩ := List.forall_mem_cons.1 own
      cases n with
      | zero => simp at enough
      | succ n =>
          rw [rewrite_succ _ _ (slashed_ne_nil.2 (List.cons_ne_nil segment parts)),
            round_slashed clean first, List.foldl_cons]
          have placed := place_unslashed clean first
          rw [left]
          cases parts with
          | cons next parts =>
              rw [List.isEmpty_cons, Bool.and_false, if_neg Bool.false_ne_true,
                List.getLast?_cons_cons]
              refine ih placed rest ?_
              simp only [slashed_cons, List.length_cons, List.length_append] at enough ⊢
              omega
          | nil =>
              cases plain : isDotSegment segment with
              | false =>
                  rw [Bool.false_and, if_neg Bool.false_ne_true, ih placed rest (Nat.zero_le _)]
                  simp [plain]
              | true =>
                  -- The slash that is left is the last round's first segment.
                  have more : ∃ m, n = m + 1 := by
                    refine Nat.exists_eq_succ_of_ne_zero ?_
                    rintro rfl
                    simp only [slashed_cons, slashed_nil, List.length_cons, List.length_append,
                      List.length_nil] at enough
                    have none_ : segment = [] := List.length_eq_zero_iff.1 (by omega)
                    rw [none_] at plain
                    exact absurd plain (by decide)
                  obtain ⟨m, rfl⟩ := more
                  have last : round ⟨[slash], slashed (place kept segment)⟩ =
                      ⟨[], slashed (place kept segment) ++ [slash]⟩ := by
                    have step : round ⟨slashed [[]], slashed (place kept segment)⟩ = _ :=
                      round_slashed placed List.not_mem_nil
                    simpa [left, place, isDotSegment] using step
                  rw [List.isEmpty_nil, Bool.true_and, if_pos rfl,
                    rewrite_succ _ _ (List.cons_ne_nil _ _), last, rewrite_nil]
                  simp [plain]

/-! ## Where the two agree -/

theorem survivor_cons (removed : Nat) (segment : JString) (rest : List JString) :
    survivor removed (segment :: rest) =
      if segment = [dot] then survivor removed rest
      else if segment = [dot, dot] then survivor (removed + 1) rest
      else if removed = 0 then some segment else survivor (removed - 1) rest := by
  cases removed with
  | zero => rfl
  | succ removed => rfl

/-- The survivor is the last of the segments that are kept. -/
theorem survivor_reverse (removed : Nat) (parts : List JString) :
    survivor removed parts.reverse = (parts.foldl place []).reverse[removed]? := by
  induction parts using List.reverseRecOn generalizing removed with
  | nil => rfl
  | append_singleton parts segment ih =>
      rw [List.reverse_append, List.reverse_singleton, List.singleton_append, survivor_cons,
        List.foldl_append, List.foldl_cons, List.foldl_nil, place]
      by_cases single : segment = [dot]
      · rw [if_pos single, if_pos single, ih]
      · rw [if_neg single, if_neg single]
        by_cases double : segment = [dot, dot]
        · rw [if_pos double, if_pos double, ih, ← List.tail_reverse, List.getElem?_tail]
        · rw [if_neg double, if_neg double, List.reverse_append, List.reverse_singleton,
            List.singleton_append]
          cases removed with
          | zero => rfl
          | succ removed => exact (ih removed).trans List.getElem?_cons_succ.symm

/-- The segments of an absolute path that are kept. -/
def keptOf (rest : JString) : List JString := ((segments (slash :: rest)).drop 1).foldl place []

/-- The path ends in a dot segment. -/
def dotted (rest : JString) : Bool :=
  ((segments (slash :: rest)).drop 1).getLast?.any isDotSegment

theorem dotted_eq (rest : JString) :
    (segments (slash :: rest)).getLast?.any isDotSegment = dotted rest := by
  obtain ⟨next, more, cut⟩ := List.exists_cons_of_ne_nil (segments_ne_nil rest)
  rw [dotted, segments_slash, cut, List.getLast?_cons_cons]
  rfl

theorem unslashed_segments (rest : JString) :
    Unslashed ((segments (slash :: rest)).drop 1) :=
  fun _ mem => (mem_splitOn (List.mem_of_mem_drop mem)).1

theorem unslashed_keptOf (rest : JString) : Unslashed (keptOf rest) := by
  have step : ∀ (parts kept : List JString), Unslashed kept → Unslashed parts →
      Unslashed (parts.foldl place kept) := by
    intro parts
    induction parts with
    | nil => exact fun kept clean _ => clean
    | cons segment parts ih =>
        intro kept clean own
        obtain ⟨first, later⟩ := List.forall_mem_cons.1 own
        exact ih _ (place_unslashed clean first) later
  exact step _ [] nofun (unslashed_segments rest)

theorem removeDotSegments_absolute (rest : JString) :
    removeDotSegments (slash :: rest) =
      slashed (keptOf rest) ++ if dotted rest then [slash] else [] := by
  have enough : (slashed ((segments (slash :: rest)).drop 1)).length ≤ (slash :: rest).length := by
    rw [slashed_segments]
  have none_ : Unslashed [] := nofun
  have walk := rewrite_slashed none_ (unslashed_segments rest) enough
  rw [slashed_segments, slashed_nil] at walk
  rw [removeDotSegments, walk, keptOf, dotted]

/-- Segments that are no dot segments are all kept. -/
theorem foldl_place {parts : List JString}
    (clean : ∀ part ∈ parts, part ≠ [dot] ∧ part ≠ [dot, dot]) (kept : List JString) : parts.foldl place kept = kept ++ parts := by
  induction parts generalizing kept with
  | nil => simp
  | cons segment parts ih =>
      obtain ⟨first, later⟩ := List.forall_mem_cons.1 clean
      rw [List.foldl_cons, ih later, place, if_neg first.1, if_neg first.2, List.append_assoc]
      rfl

/-- Without a dot in the path every segment is kept. -/
theorem keptOf_plain {rest : JString} (plain : dot ∉ slash :: rest) :
    keptOf rest = (segments (slash :: rest)).drop 1 ∧ dotted rest = false := by
  have clean : ∀ part ∈ (segments (slash :: rest)).drop 1, part ≠ [dot] ∧ part ≠ [dot, dot] := by
    intro part mem
    have inside := (mem_splitOn (List.mem_of_mem_drop mem)).2
    constructor
    · rintro rfl
      exact plain (inside dot List.mem_cons_self)
    · rintro rfl
      exact plain (inside dot List.mem_cons_self)
  refine ⟨foldl_place clean [], ?_⟩
  rw [dotted]
  cases last : ((segments (slash :: rest)).drop 1).getLast? with
  | none => rfl
  | some part =>
      obtain ⟨one, two⟩ := clean part (List.mem_of_getLast? last)
      simp [isDotSegment, one, two]

theorem collapseDotSegments_absolute (rest : JString) :
    collapseDotSegments (slash :: rest) =
      if dotted rest && (slash :: joined (keptOf rest)).getLast? != some slash then
        slash :: joined (keptOf rest) ++ [slash]
      else slash :: joined (keptOf rest) := by
  rw [collapseDotSegments]
  by_cases plain : dot ∉ slash :: rest
  · obtain ⟨all, undotted⟩ := keptOf_plain plain
    have nonempty : (segments (slash :: rest)).drop 1 ≠ [] := by
      rw [segments_slash]
      exact segments_ne_nil rest
    rw [if_pos plain, undotted, Bool.false_and, if_neg Bool.false_ne_true, all,
      ← slashed_eq_joined nonempty, slashed_segments]
  · have absolute : ((slash :: rest).head? == some slash) = true := by simp
    rw [if_neg plain, absolute]
    dsimp only
    rw [if_pos rfl, resolveDots_eq]
    rfl

/-- A path that does not end in a dot segment keeps its last segment. -/
theorem keptOf_ne_nil {rest : JString} (undotted : dotted rest = false) : keptOf rest ≠ [] := by
  rw [keptOf]
  rw [dotted] at undotted
  obtain empty | ⟨front, last, cut⟩ :=
    List.eq_nil_or_concat' ((segments (slash :: rest)).drop 1)
  · rw [segments_slash] at empty
    exact absurd empty (segments_ne_nil rest)
  · rw [cut, List.getLast?_concat] at undotted
    have other : ¬ (last = [dot] ∨ last = [dot, dot]) := by
      simpa [isDotSegment] using undotted
    rw [cut, List.foldl_append, List.foldl_cons, List.foldl_nil, place,
      if_neg fun same => other (.inl same), if_neg fun same => other (.inr same)]
    simp

/-- On every absolute path, `collapseDotSegments` answers what RFC 3986 does exactly when the
path does not end in a dot segment behind an empty one. -/
theorem collapse_eq_remove_iff (rest : JString) :
    collapseDotSegments (slash :: rest) = removeDotSegments (slash :: rest) ↔
      ¬ DotsAfterEmpty (slash :: rest) := by
  have survives := survivor_reverse 0 ((segments (slash :: rest)).drop 1)
  rw [← keptOf, ← List.head?_eq_getElem?, List.head?_reverse] at survives
  rw [collapseDotSegments_absolute, removeDotSegments_absolute, DotsAfterEmpty, dotted_eq,
    survives]
  obtain empty | ⟨front, last, cut⟩ := List.eq_nil_or_concat' (keptOf rest)
  · have trailing : dotted rest = true := by
      by_contra undotted
      exact keptOf_ne_nil (Bool.eq_false_iff.2 undotted) empty
    rw [empty, trailing]
    exact iff_of_true (by decide) (by simp)
  · have own : slash ∉ last :=
      unslashed_keptOf rest last (cut ▸ List.mem_append_right _ (List.mem_singleton_self _))
    have nonempty : keptOf rest ≠ [] := by
      rw [cut]
      simp
    rw [← slashed_eq_joined nonempty, cut, List.getLast?_concat]
    cases trailing : dotted rest with
    | false => simp
    | true =>
        cases last with
        | nil => simp
        | cons c last =>
            have unclosed : (c :: last).getLast? ≠ some slash := fun ends =>
              own (List.mem_of_getLast? ends)
            simp [unclosed]

/-- The empty segment's slash is lost. -/
theorem doubled_slash_is_merged :
    ¬ ∀ rest, collapseDotSegments (slash :: rest) = removeDotSegments (slash :: rest) := by
  intro same
  exact absurd (same (js "/.")) (by decide)

end Hx.Policy
