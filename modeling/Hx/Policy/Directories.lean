import Hx.Policy.Below
import Hx.Policy.Respelling

/-!
# What a directory is read as

A path below a directory is decoded and folded one part at a time. A set of directories that
is closed under what one of them is read as holds the directory of every reading.
-/

namespace Hx.Policy

open Hx.Java Hx.Library

variable {U : CaseMap} {dir leaf r s t : JString} {c : JChar}

/-! ## A cut behind an ASCII character -/

theorem sequenceAt_ascii (small : c.val < 0x80) (rest : JString) : sequenceAt c rest = none := by
  have alone : extraBytes c = 0 := by
    simp only [extraBytes]
    split_ifs <;> omega
  simp [sequenceAt, alone]

/-- No byte sequence reaches over an ASCII character. -/
theorem sequenceAt_append (small : c.val < 0x80) (d : JChar) (s t : JString) :
    sequenceAt d (s ++ c :: t) = sequenceAt d s := by
  by_cases room : extraBytes d ≤ s.length
  · have taken : (s ++ c :: t).take (extraBytes d) = s.take (extraBytes d) :=
      List.take_append_of_le_length room
    have long : extraBytes d ≤ (s ++ c :: t).length := by
      rw [List.length_append]
      omega
    have inside : ∀ n, (extraBytes d = 0 ∨ n < extraBytes d) = (extraBytes d = 0 ∨ n < extraBytes d) :=
      fun n => rfl
    simp only [sequenceAt, taken, Nat.not_lt.2 room, Nat.not_lt.2 long, or_false]
  · have short : sequenceAt d s = none := by
      simp [sequenceAt, Nat.not_le.1 room]
    rw [short, Option.eq_none_iff_forall_ne_some]
    rintro ⟨folded, extra⟩ found
    obtain ⟨announced, -, -, bytes⟩ := of_sequenceAt found
    have among : c ∈ (s ++ c :: t).take extra := by
      rw [← announced, List.take_append, List.take_of_length_le (by omega)]
      refine List.mem_append_right _ ?_
      obtain ⟨n, more⟩ : ∃ n, extraBytes d - s.length = n + 1 := ⟨extraBytes d - s.length - 1, by omega⟩
      rw [more]
      exact .head _
    exact absurd (bytes c among).1 (by omega)

theorem foldUtf8From_append (small : c.val < 0x80) (t : JString) {skip : Nat}
    (inside : skip ≤ s.length) :
    foldUtf8From skip (s ++ c :: t) = foldUtf8From skip s ++ c :: foldOverlongUtf8 t := by
  induction s generalizing skip with
  | nil =>
      obtain rfl := Nat.le_zero.1 inside
      show foldUtf8From 0 (c :: t) = c :: foldOverlongUtf8 t
      rw [foldUtf8From, sequenceAt_ascii small]
      rfl
  | cons d s ih =>
      cases skip with
      | succ skip =>
          rw [List.length_cons] at inside
          exact ih (by omega)
      | zero =>
          rw [List.cons_append, foldUtf8From, foldUtf8From, sequenceAt_append small]
          cases found : sequenceAt d s with
          | none => exact congrArg (d :: ·) (ih (Nat.zero_le _))
          | some p =>
              obtain ⟨folded, extra⟩ := p
              exact congrArg (folded :: ·) (ih (of_sequenceAt found).2.2.1)

theorem foldOverlongUtf8_append (small : c.val < 0x80) (s t : JString) :
    foldOverlongUtf8 (s ++ c :: t) = foldOverlongUtf8 s ++ c :: foldOverlongUtf8 t :=
  foldUtf8From_append small t (Nat.zero_le _)

theorem foldOverlongUtf8_ascii (small : ∀ c ∈ s, c.val < 0x80) : foldOverlongUtf8 s = s := by
  induction s with
  | nil => rfl
  | cons c s ih =>
      obtain ⟨first, rest⟩ := List.forall_mem_cons.1 small
      have cut := foldOverlongUtf8_append first [] s
      rw [ih rest] at cut
      exact cut

theorem decodeOnce_keep {i : Bool} {d : JChar}
    (none_ : ∀ a b rest, s = a :: b :: rest → escape i d a b = none) :
    decodeOnce i (d :: s) = d :: decodeOnce i s := by
  obtain ⟨a, b, rest, e, cut, found, -⟩ | ⟨-, copied⟩ := decodeOnce_cons i d s
  · rw [none_ a b rest cut] at found
    cases found
  · exact copied

/-- No escape reaches over what is no hex digit and no `%`. -/
theorem decodeOnce_append_stop (plain : c ≠ percent) (noDigit : hexDigit c = none) (i : Bool)
    (s t : JString) : decodeOnce i (s ++ c :: t) = decodeOnce i s ++ c :: decodeOnce i t := by
  induction length : s.length using Nat.strong_induction_on generalizing s with
  | _ n ih =>
      subst length
      cases s with
      | nil => exact decodeOnce_copy plain i t
      | cons d s =>
          obtain ⟨a, b, rest, e, rfl, found, decoded⟩ | ⟨none_, copied⟩ := decodeOnce_cons i d s
          · have shorter : rest.length < (d :: a :: b :: rest).length := by
              simp only [List.length_cons]
              omega
            rw [decoded, List.cons_append, List.cons_append, List.cons_append, decodeOnce, found]
            exact congrArg (e :: ·) (ih rest.length shorter rest rfl)
          · have copied' : decodeOnce i (d :: (s ++ c :: t)) = d :: decodeOnce i (s ++ c :: t) := by
              refine decodeOnce_keep fun a b rest cut => ?_
              cases s with
              | nil =>
                  obtain ⟨rfl, -⟩ := List.cons.inj cut
                  simp [escape, noDigit]
              | cons x s =>
                  cases s with
                  | nil =>
                      obtain ⟨-, cut⟩ := List.cons.inj cut
                      obtain ⟨rfl, -⟩ := List.cons.inj cut
                      simp [escape, noDigit]
                  | cons y s =>
                      obtain ⟨same, cut⟩ := List.cons.inj cut
                      obtain ⟨same', -⟩ := List.cons.inj cut
                      rw [← same, ← same']
                      exact none_ x y s rfl
            rw [List.cons_append, copied', ih s.length (Nat.lt_succ_self _) s rfl, copied]
            rfl

/-! ## The parts of a path -/

theorem lower_below (unreserved : Unreserved leaf) (dir : JString) :
    lower U (below dir leaf) = below (lower U dir) leaf := by
  have slashed : lowerAscii slash.val = slash.val := by decide
  have own : (Fin.ofNat 65536 slash.val : JChar) = slash := by decide
  have small : slash.val < 0x80 := by decide
  rw [below, lower_cons_ascii small, lower_append_ascii small, lower_cons_ascii small,
    unreserved.lower, slashed, own]
  rfl

theorem Unreserved.ascii (unreserved : Unreserved leaf) : ∀ c ∈ leaf, c.val < 0x80 := by
  intro c mem
  have bounds := bounds_of_unreserved (unreserved c mem)
  omega

theorem foldOverlongUtf8_below (unreserved : Unreserved leaf) (dir : JString) :
    foldOverlongUtf8 (below dir leaf) = below (foldOverlongUtf8 dir) leaf := by
  have small : slash.val < 0x80 := by decide
  have front := foldOverlongUtf8_append small [] (dir ++ slash :: leaf)
  rw [List.nil_append] at front
  rw [below, front, foldOverlongUtf8_append small, foldOverlongUtf8_ascii unreserved.ascii]
  rfl

theorem bestFit_latin (small : c.val < 0x100) : bestFit c = c := if_pos (.inl small)

theorem foldBestFit_below (unreserved : Unreserved leaf) (dir : JString) :
    foldBestFit (below dir leaf) = below (foldBestFit dir) leaf := by
  have own : leaf.map bestFit = leaf := by
    conv_rhs => rw [← List.map_id leaf]
    refine List.map_congr_left fun c mem => bestFit_latin ?_
    have small := unreserved.ascii c mem
    omega
  have stop : bestFit slash = slash := bestFit_latin (by decide)
  simp only [foldBestFit, below, List.map_cons, List.map_append, own, stop]

theorem decodeOnce_below (unreserved : Unreserved leaf) (i : Bool) (dir : JString) :
    decodeOnce i (below dir leaf) = below (decodeOnce i dir) leaf := by
  have own : decodeOnce i leaf = leaf := by
    have plain : ∀ c ∈ leaf, c ≠ percent := by
      rintro _ mem rfl
      exact unreserved.notMem (by decide) mem
    have whole := decodeOnce_append plain (i := i) []
    rw [List.append_nil] at whole
    rw [whole]
    exact List.append_nil leaf
  rw [below, decodeOnce_copy (by decide), decodeOnce_append_stop (by decide) (by decide), own]
  rfl

theorem rounds_below (unreserved : Unreserved leaf) (i : Bool) (n : Nat) (dir : JString) :
    rounds (decodeOnce i) n (below dir leaf) = below (rounds (decodeOnce i) n dir) leaf := by
  rw [rounds_eq, rounds_eq]
  induction n generalizing dir with
  | zero => rfl
  | succ n ih =>
      rw [Function.iterate_succ_apply, Function.iterate_succ_apply, decodeOnce_below unreserved, ih]

/-! ## Readings -/

/-- The member a derivation step starts from. -/
def Decoding.read : Decoding → JString → JString
  | .undecoded, s => s
  | .decoded, s => decodeToFixedPoint s
  | .separatorsInert, s => decodeSeparatorsInert s

def Folding.read : Folding → JString → JString
  | .unfolded, s => s
  | .utf8, s => foldOverlongUtf8 s
  | .bestFit, s => foldBestFit (foldOverlongUtf8 s)

theorem mem_derive_reads {member : JString} : r ∈ derive U member ↔
    ∃ (decoding : Decoding) (folding : Folding),
      r ∈ addReadings U (folding.read (decoding.read member)) := by
  simp only [mem_derive_bases, mem_addBases]
  refine exists_congr fun decoding => exists_congr fun folding => ?_
  cases decoding <;> cases folding <;> rfl

theorem read_below (unreserved : Unreserved leaf) (decoding : Decoding) (folding : Folding)
    (dir : JString) : folding.read (decoding.read (below dir leaf)) =
      below (folding.read (decoding.read dir)) leaf := by
  have decoded : decoding.read (below dir leaf) = below (decoding.read dir) leaf := by
    cases decoding with
    | undecoded => rfl
    | decoded => exact rounds_below unreserved false _ dir
    | separatorsInert => exact rounds_below unreserved true _ dir
  rw [decoded]
  cases folding with
  | unfolded => rfl
  | utf8 => exact foldOverlongUtf8_below unreserved _
  | bestFit =>
      rw [Folding.read, foldOverlongUtf8_below unreserved, foldBestFit_below unreserved]
      rfl

/-- The segment transforms read a path below a steady directory two ways. -/
theorem Steady.mem_addReadings (steady : Steady dir) (unreserved : Unreserved leaf)
    (up : leaf ≠ [dot, dot]) (h : r ∈ addReadings U (below dir leaf)) :
    r = below (lower U dir) leaf ∨ r = below (lower U dir) (leafTail leaf) := by
  have resolved : ∀ l : JString, Unreserved l → l ≠ [dot, dot] →
      lower U (collapseDotSegments (collapseEmptySegments (below dir l))) =
          below (lower U dir) (resolvedLeaf l) ∧
        lower U (collapseEmptySegments (collapseDotSegments (below dir l))) =
          below (lower U dir) (resolvedLeaf l) := by
    intro l plain notUp
    have plain' : Unreserved (resolvedLeaf l) := by
      rw [resolvedLeaf]
      split
      · exact fun c mem => absurd mem List.not_mem_nil
      · exact plain
    rw [steady.collapseEmpty_below plain.slash, steady.collapseDot_below plain.slash notUp,
      steady.collapseEmpty_below plain'.slash, lower_below plain']
    exact ⟨rfl, rfl⟩
  have trimmed := unreserved.trimSegmentTail up
  obtain ⟨f, -, h⟩ := Policy.mem_addReadings.1 h
  rw [steady.apply_below unreserved, trimmed] at h
  have single : resolvedLeaf [dot] = [] ∧ leafTail [dot] = [] := by decide
  have settled : resolvedLeaf (leafTail leaf) = leafTail leaf := by
    refine if_neg fun same => ?_
    have again := leafTail_leafTail leaf
    rw [same, single.2] at again
    cases again
  by_cases one : leaf = [dot]
  · rw [one, if_pos rfl, ite_self] at h
    have both := resolved [dot] (by rw [← one]; exact unreserved) (by decide)
    rw [both.1, both.2, or_self, single.1] at h
    rw [one, single.2]
    exact .inr h
  · rw [if_neg one] at h
    have kept : resolvedLeaf leaf = leaf := if_neg one
    split at h
    · have both := resolved _ unreserved.leafTail (leafTail_ne_dots leaf)
      rw [both.1, both.2, or_self, settled] at h
      exact .inr h
    · have both := resolved leaf unreserved up
      rw [both.1, both.2, or_self, kept] at h
      exact .inl h

/-- Among the directories, with what a steady one of them is read as. -/
structure ClosedUnder (U : CaseMap) (dirs : List JString) : Prop where
  steady : ∀ d ∈ dirs, ∀ (decoding : Decoding) (folding : Folding),
    Steady (folding.read (decoding.read d))
  closed : ∀ d ∈ dirs, ∀ (decoding : Decoding) (folding : Folding),
    lower U (folding.read (decoding.read d)) ∈ dirs

/-- The entries of the directories: the leaf as it is, and without the dots it ends in. -/
def entries (dirs : List JString) (leaf : JString) : List JString :=
  dirs.flatMap fun d => [below d leaf, below d (leafTail leaf)]

theorem mem_entries {dirs : List JString} : r ∈ entries dirs leaf ↔
    ∃ d ∈ dirs, r = below d leaf ∨ r = below d (leafTail leaf) := by
  simp [entries]

theorem ClosedUnder.readings {dirs : List JString} (all : ClosedUnder U dirs)
    (unreserved : Unreserved leaf) (up : leaf ≠ [dot, dot]) (start : dir ∈ dirs) :
    ∀ r ∈ readings U (below dir leaf) none, r ∈ entries dirs leaf := by
  refine (readings_isClosure (below dir leaf)).least { r | r ∈ entries dirs leaf } ?_ ?_
  · intro x seed
    rw [List.mem_singleton.1 seed]
    exact mem_entries.2 ⟨dir, start, .inl rfl⟩
  · intro x mem y derived
    obtain ⟨d, among, whole⟩ := mem_entries.1 mem
    obtain ⟨decoding, folding, read⟩ := mem_derive_reads.1 derived
    have steady := all.steady d among decoding folding
    refine mem_entries.2 ⟨_, all.closed d among decoding folding, ?_⟩
    obtain rfl | rfl := whole
    · rw [read_below unreserved] at read
      exact steady.mem_addReadings unreserved up read
    · rw [read_below unreserved.leafTail] at read
      have both := steady.mem_addReadings unreserved.leafTail (leafTail_ne_dots leaf) read
      rw [leafTail_leafTail, or_self] at both
      exact .inr both

theorem ClosedUnder.length_readings {dirs : List JString} (all : ClosedUnder U dirs)
    (unreserved : Unreserved leaf) (up : leaf ≠ [dot, dot]) (start : dir ∈ dirs) :
    (Policy.readings U (below dir leaf) none).length ≤ 2 * dirs.length := by
  have nodup : (Policy.readings U (below dir leaf) none).Nodup :=
    Worklist.nodup_run (List.nodup_singleton _)
  have fewer := (nodup.subperm (all.readings unreserved up start)).length_le
  rw [entries, List.length_flatMap] at fewer
  simpa [Nat.mul_comm] using fewer

/-! ## Readings that are there -/

theorem mem_readings_of_base (decoding : Decoding) (folding : Folding) {member path : JString}
    (mem : member ∈ readings U path none)
    (read : r ∈ addReadings U (folding.read (decoding.read member))) :
    r ∈ readings U path none :=
  readings_closed rfl mem (mem_derive_reads.2 ⟨decoding, folding, read⟩)

/-- No transform need be chosen. -/
theorem mem_addReadings_plain (s : JString) :
    lower U (collapseEmptySegments (collapseDotSegments s)) ∈ addReadings U s :=
  mem_addReadings.2 ⟨⟨false, false, false, false⟩, rfl, .inr rfl⟩

/-- A leaf a member can have: any of its parts that is no step up. -/
theorem Steady.mem_readings {path : JString} (decoding : Decoding) (folding : Folding)
    (steady : Steady (folding.read (decoding.read dir))) (unreserved : Unreserved leaf)
    (up : leaf ≠ [dot, dot]) (mem : below dir leaf ∈ Policy.readings U path none) :
    below (lower U (folding.read (decoding.read dir))) (resolvedLeaf leaf) ∈
      Policy.readings U path none := by
  have plain : Unreserved (resolvedLeaf leaf) := by
    rw [resolvedLeaf]
    split
    · exact fun c mem => absurd mem List.not_mem_nil
    · exact unreserved
  refine mem_readings_of_base decoding folding mem ?_
  rw [read_below unreserved]
  have own := mem_addReadings_plain (U := U) (below (folding.read (decoding.read dir)) leaf)
  rw [steady.collapseDot_below unreserved.slash up, steady.collapseEmpty_below plain.slash,
    lower_below plain] at own
  exact own

end Hx.Policy
