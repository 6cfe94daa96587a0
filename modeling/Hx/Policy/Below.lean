import Hx.Policy.DotSegments
import Hx.Policy.LeastReadings
import Hx.Policy.Rule

/-!
# What is read of a path below a directory

A directory is steady when none of its segments is empty, ends in a dot or in what is trimmed,
or holds what a segment transform acts on. Of a path below one, the segment transforms change
the last segment alone, and the byte passes read the directory by itself.
-/

namespace Hx.Policy

open Hx.Java Hx.Library

variable {U : CaseMap} {dir leaf r : JString}

def space : JChar := ch ' '

/-- The path of an entry in a directory. -/
def below (dir leaf : JString) : JString := slash :: (dir ++ slash :: leaf)

/-- The characters a URI carries as they are, without the capitals. -/
def isUnreserved (c : JChar) : Bool :=
  (0x61 ≤ c.val && c.val ≤ 0x7a) || isDigit c || c == ch '-' || c == dot || c == ch '_' ||
    c == ch '~'

def Unreserved (leaf : JString) : Prop := ∀ c ∈ leaf, isUnreserved c = true

/-- No segment transform has anything to act on. -/
structure Steady (dir : JString) : Prop where
  plain : ∀ c ∈ dir, c ≠ semicolon ∧ c ≠ backslash ∧ c ≠ nul
  named : ∀ segment ∈ segments dir, ∃ c, segment.getLast? = some c ∧ c ≠ dot ∧ c ≠ space

/-! ## Leaves -/

theorem bounds_of_unreserved {c : JChar} (h : isUnreserved c = true) :
    c.val = 0x2d ∨ c.val = 0x2e ∨ (0x30 ≤ c.val ∧ c.val ≤ 0x39) ∨ c.val = 0x5f ∨
      (0x61 ≤ c.val ∧ c.val ≤ 0x7a) ∨ c.val = 0x7e := by
  have hyphen : (ch '-').val = 0x2d := by decide
  have period : dot.val = 0x2e := by decide
  have line : (ch '_').val = 0x5f := by decide
  have tilde : (ch '~').val = 0x7e := by decide
  simp only [isUnreserved, isDigit, Bool.or_eq_true, Bool.and_eq_true, decide_eq_true_eq,
    beq_iff_eq, Fin.ext_iff, hyphen, period, line, tilde] at h
  omega

theorem Unreserved.notMem (unreserved : Unreserved leaf) {c : JChar}
    (other : isUnreserved c = false) : c ∉ leaf := fun mem =>
  Bool.false_ne_true (other.symm.trans (unreserved c mem))

theorem Unreserved.slash (unreserved : Unreserved leaf) : slash ∉ leaf :=
  unreserved.notMem (by decide)

/-- The case fold leaves such a text alone. -/
theorem Unreserved.lower (unreserved : Unreserved leaf) : lower U leaf = leaf := by
  induction leaf with
  | nil => rfl
  | cons c leaf ih =>
      obtain ⟨first, rest⟩ := List.forall_mem_cons.1 unreserved
      have bounds := bounds_of_unreserved first
      have same : lowerAscii c.val = c.val := by
        rw [lowerAscii, if_neg (by omega)]
      rw [lower_cons_ascii (by omega), ih rest, same]
      exact congrArg (· :: leaf) (Fin.ext (Nat.mod_eq_of_lt c.isLt))

/-- A leaf without the dots it ends in. -/
def leafTail (leaf : JString) : JString := leaf.rdropWhile fun c => c == dot || isBlankTail c

theorem Unreserved.leafTail (unreserved : Unreserved leaf) : Unreserved (leafTail leaf) :=
  fun c mem => unreserved c ((List.rdropWhile_prefix _ leaf).subset mem)

theorem leafTail_leafTail (leaf : JString) : leafTail (leafTail leaf) = leafTail leaf :=
  List.rdropWhile_idempotent _ leaf

theorem leafTail_ne_dots (leaf : JString) : leafTail leaf ≠ [dot, dot] := by
  intro same
  have again := leafTail_leafTail leaf
  rw [same] at again
  exact absurd again (by decide)

/-- No leaf is trimmed of more than its dots, and one that is a dot segment of none. -/
theorem Unreserved.trimSegmentTail (unreserved : Unreserved leaf) (up : leaf ≠ [dot, dot]) :
    trimSegmentTail leaf = if leaf = [dot] then leaf else Policy.leafTail leaf := by
  have cut : leaf.rdropWhile isBlankTail = leaf := by
    rw [List.rdropWhile_eq_self_iff]
    intro nonempty blank
    have last := unreserved _ (List.getLast_mem nonempty)
    simp only [isBlankTail, Bool.or_eq_true, beq_iff_eq] at blank
    obtain same | same := blank
    · rw [same] at last
      exact absurd last (by decide)
    · rw [same] at last
      exact absurd last (by decide)
  rw [Policy.trimSegmentTail, cut]
  by_cases single : leaf = [dot]
  · rw [single]
    rfl
  · have other : isDotSegment leaf = false := by
      simp [isDotSegment, single, up]
    rw [if_neg single]
    simp [other, Policy.leafTail]

/-! ## Segments -/

theorem segments_below (dir : JString) (own : slash ∉ leaf) :
    segments (below dir leaf) = [] :: (segments dir ++ [leaf]) := by
  rw [below, segments_slash, segments, List.splitOn_append_cons_self,
    List.splitOn_eq_singleton own]
  rfl

/-- The segments of a path below a directory, each behind its slash. -/
theorem slashed_below (leaf : JString) : slashed (segments dir ++ [leaf]) = below dir leaf := by
  rw [slashed_append, slashed_eq_joined (segments_ne_nil dir), joined_segments]
  simp [below]

theorem joined_below (leaf : JString) :
    joined ([] :: (segments dir ++ [leaf])) = below dir leaf := by
  have front := slashed_eq_joined (List.cons_ne_nil [] (segments dir ++ [leaf]))
  rw [slashed_cons, List.nil_append] at front
  rw [← (List.cons.inj front).2, slashed_below]

theorem Steady.segment (steady : Steady dir) {segment : JString} (mem : segment ∈ segments dir) :
    segment ≠ [] ∧ segment ≠ [dot] ∧ segment ≠ [dot, dot] ∧ trimSegmentTail segment = segment := by
  obtain ⟨c, last, notDot, notSpace⟩ := steady.named segment mem
  have inside := (mem_splitOn mem).2
  have notNul : c ≠ nul := (steady.plain c (inside c (List.mem_of_getLast? last))).2.2
  have kept : ∀ p : JChar → Bool, p c = false → segment.rdropWhile p = segment := by
    intro p other
    rw [List.rdropWhile_eq_self_iff]
    intro nonempty
    rw [List.getLast?_eq_some_getLast nonempty, Option.some_inj] at last
    rw [last, other]
    exact Bool.false_ne_true
  have unblank : isBlankTail c = false := by
    have other : c ≠ ch ' ' := notSpace
    simp [isBlankTail, other, notNul]
  refine ⟨?_, ?_, ?_, ?_⟩
  · rintro rfl
    cases last
  · rintro rfl
    exact notDot (Option.some.inj last).symm
  · rintro rfl
    exact notDot (Option.some.inj last).symm
  · rw [trimSegmentTail, kept _ unblank, kept _ (by simp [unblank, notDot])]
    exact ite_self _

/-! ## The segment transforms -/

theorem notMem_below {c : JChar} (other : c ≠ slash) (outside : c ∉ dir) (own : c ∉ leaf) :
    c ∉ below dir leaf := by
  simp [below, other, outside, own]

theorem foldBackslashes_of_notMem {s : JString} (none_ : backslash ∉ s) :
    foldBackslashes s = s := by
  rw [foldBackslashes]
  conv_rhs => rw [← List.map_id s]
  refine List.map_congr_left fun c mem => if_neg ?_
  rintro rfl
  exact none_ mem

theorem stripPathParameters_of_notMem {s : JString} (none_ : semicolon ∉ s) :
    stripPathParameters s = s := by
  rw [stripPathParameters]
  induction s with
  | nil => rfl
  | cons c s ih =>
      rw [List.mem_cons, not_or] at none_
      have other : (c == semicolon) = false := beq_eq_false_iff_ne.2 (Ne.symm none_.1)
      rw [stripFrom, ih none_.2, other, Bool.or_false]
      simp

theorem truncateAtNul_of_notMem {s : JString} (none_ : nul ∉ s) : truncateAtNul s = s := by
  rw [truncateAtNul, List.takeWhile_eq_self_iff]
  intro c mem
  rw [bne_iff_ne]
  rintro rfl
  exact none_ mem

theorem Steady.trim_below (steady : Steady dir) (unreserved : Unreserved leaf) :
    trimSegmentTails (below dir leaf) = below dir (trimSegmentTail leaf) := by
  have same : (segments dir).map trimSegmentTail = segments dir := by
    conv_rhs => rw [← List.map_id (segments dir)]
    exact List.map_congr_left fun segment mem => (steady.segment mem).2.2.2
  rw [trimSegmentTails, segments_below dir unreserved.slash, List.map_cons, List.map_append, same]
  exact joined_below _

/-- Whatever transforms are chosen, the leaf alone can have been trimmed. -/
theorem Steady.apply_below (steady : Steady dir) (unreserved : Unreserved leaf) (f : Flags) :
    f.apply (below dir leaf) =
      if f.trimTails then below dir (trimSegmentTail leaf) else below dir leaf := by
  have outside := steady.plain
  have semi : semicolon ∉ below dir leaf := notMem_below (by decide)
    (fun mem => (outside _ mem).1 rfl) (unreserved.notMem (by decide))
  have back : backslash ∉ below dir leaf := notMem_below (by decide)
    (fun mem => (outside _ mem).2.1 rfl) (unreserved.notMem (by decide))
  have none_ : nul ∉ below dir leaf := notMem_below (by decide)
    (fun mem => (outside _ mem).2.2 rfl) (unreserved.notMem (by decide))
  rw [Flags.apply, truncateAtNul_of_notMem none_, ite_self, foldBackslashes_of_notMem back,
    ite_self, stripPathParameters_of_notMem semi, ite_self, steady.trim_below unreserved]

/-! ## Merging and resolving -/

/-- A piece without a slash is copied, and leaves no slash in front of what follows. -/
theorem collapseFrom_piece {piece : JString} (own : slash ∉ piece) (nonempty : piece ≠ [])
    (prevSlash : Bool) (s : JString) :
    collapseFrom prevSlash (piece ++ s) = piece ++ collapseFrom false s := by
  induction piece generalizing prevSlash with
  | nil => exact absurd rfl nonempty
  | cons c piece ih =>
      rw [List.mem_cons, not_or] at own
      have other : (c == slash) = false := beq_eq_false_iff_ne.2 (Ne.symm own.1)
      rw [List.cons_append, collapseFrom, other, Bool.false_and, if_neg Bool.false_ne_true]
      cases piece with
      | nil => rfl
      | cons d piece => rw [ih own.2 (List.cons_ne_nil d piece)]; rfl

theorem collapseFrom_of_notMem (own : slash ∉ leaf) (prevSlash : Bool) :
    collapseFrom prevSlash leaf = leaf := by
  by_cases empty : leaf = []
  · rw [empty]
    rfl
  · have whole := collapseFrom_piece own empty prevSlash []
    rw [List.append_nil] at whole
    rw [whole]
    exact List.append_nil leaf

/-- The slashes in front of a leaf are merged without it. -/
theorem collapseFrom_leaf (own : slash ∉ leaf) (prevSlash : Bool) (s : JString) :
    collapseFrom prevSlash (s ++ slash :: leaf) = collapseFrom prevSlash (s ++ [slash]) ++ leaf := by
  induction s generalizing prevSlash with
  | nil =>
      cases prevSlash with
      | false => simp [collapseFrom, collapseFrom_of_notMem own]
      | true => simp [collapseFrom, collapseFrom_of_notMem own]
  | cons c s ih =>
      rw [List.cons_append, List.cons_append, collapseFrom, collapseFrom, ih, ih]
      split
      · rfl
      · rfl

theorem collapseFrom_sublist (prevSlash : Bool) (s : JString) :
    (collapseFrom prevSlash s).Sublist s := by
  induction s generalizing prevSlash with
  | nil => exact .slnil
  | cons c s ih =>
      rw [collapseFrom]
      split
      · exact (ih _).cons c
      · exact (ih _).cons_cons c

theorem collapseFrom_slashed {parts : List JString} (own : Unslashed parts)
    (nonempty : ∀ part ∈ parts, part ≠ []) :
    collapseFrom false (slashed parts ++ [slash]) = slashed parts ++ [slash] := by
  induction parts with
  | nil => rfl
  | cons part parts ih =>
      obtain ⟨first, rest⟩ := List.forall_mem_cons.1 own
      obtain ⟨some_, more⟩ := List.forall_mem_cons.1 nonempty
      rw [slashed_cons, List.cons_append, List.append_assoc, collapseFrom, Bool.and_false,
        if_neg Bool.false_ne_true, collapseFrom_piece first some_, ih rest more]

theorem Steady.collapseEmpty_below (steady : Steady dir) (own : slash ∉ leaf) :
    collapseEmptySegments (below dir leaf) = below dir leaf := by
  have front : slash :: dir = slashed (segments dir) := by
    rw [slashed_eq_joined (segments_ne_nil dir), joined_segments]
  have own' : Unslashed (segments dir) := fun _ mem => (mem_splitOn mem).1
  have merged := collapseFrom_slashed own' fun _ mem => (steady.segment mem).1
  rw [← front] at merged
  rw [collapseEmptySegments, below, ← List.cons_append, collapseFrom_leaf own, merged]
  simp

/-- What the dot segments of a directory leave of its segments. -/
def keptSegments (dir : JString) : List JString := (segments dir).foldl place []

theorem keptOf_below (dir : JString) (own : slash ∉ leaf) :
    keptOf (dir ++ slash :: leaf) = place (keptSegments dir) leaf ∧
      dotted (dir ++ slash :: leaf) = isDotSegment leaf := by
  have cut : (segments (slash :: (dir ++ slash :: leaf))).drop 1 = segments dir ++ [leaf] := by
    have whole := segments_below dir own
    rw [below] at whole
    rw [whole]
    rfl
  constructor
  · rw [keptOf, cut, List.foldl_append]
    rfl
  · rw [dotted, cut, List.getLast?_concat]
    rfl

theorem keptSegments_sublist (dir : JString) : (keptSegments dir).Sublist (segments dir) := by
  have step : ∀ parts kept : List JString, (parts.foldl place kept).Sublist (kept ++ parts) := by
    intro parts
    induction parts with
    | nil => exact fun kept => by rw [List.append_nil]; exact .refl kept
    | cons segment parts ih =>
        intro kept
        refine (ih (place kept segment)).trans ?_
        rw [place]
        split
        · exact (List.Sublist.refl kept).append (.cons segment (.refl parts))
        · split
          · exact (List.dropLast_sublist kept).append (.cons segment (.refl parts))
          · rw [List.append_assoc]
            exact .refl _
  exact step _ []

theorem Steady.keptSegments (steady : Steady dir) : keptSegments dir = segments dir :=
  foldl_place (fun _ mem => ⟨(steady.segment mem).2.1, (steady.segment mem).2.2.1⟩) []

theorem slashed_sublist {parts more : List JString} (h : parts.Sublist more) :
    (slashed parts).Sublist (slashed more) := by
  induction h with
  | slnil => exact .refl _
  | cons segment _ ih =>
      rw [slashed_cons, ← List.cons_append]
      exact ih.trans (List.sublist_append_right _ _)
  | cons_cons segment _ ih =>
      rw [slashed_cons, slashed_cons]
      exact ((List.Sublist.refl segment).append ih).cons_cons slash

theorem below_nil (dir : JString) : below dir [] = slashed (segments dir) ++ [slash] := by
  rw [← slashed_below, slashed_append]
  rfl

/-- The leaf as resolving leaves it. -/
def resolvedLeaf (leaf : JString) : JString := if leaf = [dot] then [] else leaf

/-- Resolving takes characters out of the directory, and of the leaf at most its one dot. -/
theorem exists_collapseDot (own : slash ∉ leaf) (up : leaf ≠ [dot, dot]) : ∃ front : JString,
    (front ++ [slash]).Sublist (below dir []) ∧
      collapseDotSegments (below dir leaf) = front ++ slash :: resolvedLeaf leaf := by
  have fewer := slashed_sublist (keptSegments_sublist dir)
  obtain ⟨kept, ends⟩ := keptOf_below dir own
  rw [below_nil, below, collapseDotSegments_absolute, kept, ends, place, resolvedLeaf]
  by_cases single : leaf = [dot]
  · rw [if_pos single, if_pos single, single, show isDotSegment [dot] = true from rfl]
    by_cases empty : keptSegments dir = []
    · rw [empty]
      exact ⟨[], List.sublist_append_right _ _, rfl⟩
    · rw [← slashed_eq_joined empty]
      by_cases closed : (slashed (keptSegments dir)).getLast? = some slash
      · obtain ⟨front, whole⟩ := List.getLast?_eq_some_iff.1 closed
        refine ⟨front, ?_, ?_⟩
        · rw [← whole]
          exact fewer.trans (List.sublist_append_left _ _)
        · rw [closed]
          simpa using whole
      · refine ⟨slashed (keptSegments dir), fewer.append (.refl _), ?_⟩
        simp [closed]
  · have other : isDotSegment leaf = false := by simp [isDotSegment, single, up]
    rw [if_neg single, if_neg single, if_neg up, other, Bool.false_and,
      if_neg Bool.false_ne_true, ← slashed_eq_joined (by simp), slashed_append]
    refine ⟨slashed (keptSegments dir), fewer.append (.refl _), ?_⟩
    simp

theorem Steady.collapseDot_below (steady : Steady dir) (own : slash ∉ leaf)
    (up : leaf ≠ [dot, dot]) :
    collapseDotSegments (below dir leaf) = below dir (resolvedLeaf leaf) := by
  have front : slash :: dir = slashed (segments dir) := by
    rw [slashed_eq_joined (segments_ne_nil dir), joined_segments]
  obtain ⟨kept, ends⟩ := keptOf_below dir own
  rw [below, collapseDotSegments_absolute, kept, ends, steady.keptSegments, place, resolvedLeaf]
  by_cases single : leaf = [dot]
  · have unclosed : (slashed (segments dir)).getLast? ≠ some slash := by
      obtain ⟨more, last, cut⟩ :=
        (List.eq_nil_or_concat' (segments dir)).resolve_left (segments_ne_nil dir)
      have mem : last ∈ segments dir := by simp [cut]
      obtain ⟨c, ending, -⟩ := steady.named last mem
      have inside := (mem_splitOn mem).1
      rw [cut, slashed_append, slashed_cons, slashed_nil, List.append_nil, List.getLast?_append,
        List.getLast?_cons, ending]
      rintro same
      rw [← Option.some.inj same] at inside
      exact inside (List.mem_of_getLast? ending)
    rw [← front] at unclosed
    rw [if_pos single, if_pos single, single, joined_segments]
    simp [unclosed, isDotSegment, below]
  · have other : isDotSegment leaf = false := by simp [isDotSegment, single, up]
    rw [if_neg single, if_neg single, if_neg up, other, Bool.false_and,
      if_neg Bool.false_ne_true, ← slashed_eq_joined (by simp), slashed_below]

end Hx.Policy
