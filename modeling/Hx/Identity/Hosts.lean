import Hx.Identity.Origins
import Hx.Library.Pieces

/-!
# Two readers of one origin

What a reader makes of an origin depends on its ASCII characters alone: the lower-cased
text is cut at ASCII delimiters. Trimming control characters changes the host only where
they are part of it.
-/

namespace Hx.Identity

open Hx.Library

/-! ## The cut -/

def isDelimiter (c : CodePoint) : Bool := delimiters.contains c

theorem cutAt_cons_self {rest : Text} {d : CodePoint} (cut : Nat) :
    cutAt (d :: rest) cut d = 0 := by
  rw [cutAt, List.idxOf?_cons, if_pos (beq_self_eq_true d)]
  simp only
  split <;> omega

theorem cutAt_zero {rest : Text} {d : CodePoint} : cutAt rest 0 d = 0 := by
  rw [cutAt]
  split
  · exact if_neg (Nat.not_lt_zero _)
  · rfl

theorem cutAt_cons_of_ne {rest : Text} {c d : CodePoint} (ne : c ≠ d) (cut : Nat) :
    cutAt (c :: rest) (cut + 1) d = cutAt rest cut d + 1 := by
  rw [cutAt, cutAt, List.idxOf?_cons, if_neg (by simpa using ne)]
  cases rest.idxOf? d with
  | none => rfl
  | some at_ =>
      simp only [Option.map_some, Nat.add_lt_add_iff_right]
      split <;> rfl

theorem foldl_cutAt_zero (rest ds : Text) : ds.foldl (cutAt rest) 0 = 0 := by
  induction ds with
  | nil => rfl
  | cons d ds ih => rw [List.foldl_cons, cutAt_zero, ih]

theorem foldl_cutAt_of_mem {rest ds : Text} {c : CodePoint} (mem : c ∈ ds) (init : Nat) :
    ds.foldl (cutAt (c :: rest)) init = 0 := by
  induction ds generalizing init with
  | nil => contradiction
  | cons d ds ih =>
      rw [List.foldl_cons]
      rcases List.mem_cons.1 mem with rfl | later
      · rw [cutAt_cons_self, foldl_cutAt_zero]
      · exact ih later _

theorem foldl_cutAt_of_not_mem {rest ds : Text} {c : CodePoint} (other : c ∉ ds) (init : Nat) :
    ds.foldl (cutAt (c :: rest)) (init + 1) = ds.foldl (cutAt rest) init + 1 := by
  induction ds generalizing init with
  | nil => rfl
  | cons d ds ih =>
      rw [List.mem_cons, not_or] at other
      rw [List.foldl_cons, List.foldl_cons, cutAt_cons_of_ne other.1, ih other.2]

/-- The cut is in front of the first delimiter. -/
theorem take_cut (rest : Text) : rest.take (cut rest) = rest.takeWhile fun c => !isDelimiter c := by
  induction rest with
  | nil => rfl
  | cons c rest ih =>
      cases delimits : isDelimiter c with
      | true =>
          have mem : c ∈ delimiters := List.contains_iff_mem.1 delimits
          rw [cut, foldl_cutAt_of_mem mem, List.takeWhile_cons, delimits]
          rfl
      | false =>
          have other : c ∉ delimiters := by
            intro mem
            rw [isDelimiter, List.contains_iff_mem.2 mem] at delimits
            contradiction
          rw [cut, List.length_cons, foldl_cutAt_of_not_mem other, List.take_succ_cons,
            List.takeWhile_cons, delimits]
          exact congrArg (c :: ·) ih

theorem hostPart_eq (rest : Text) :
    hostPart rest = (afterScheme rest).takeWhile fun c => !isDelimiter c :=
  take_cut (afterScheme rest)

/-! ## What is visible of a host -/

theorem visible_eq_some {c d : CodePoint} : visible c = some d ↔ c.val < 0x80 ∧ c = d := by
  rw [visible]
  split
  · rename_i small
    exact ⟨fun same => ⟨small, Option.some.inj same⟩, fun h => congrArg some h.2⟩
  · rename_i large
    constructor
    · intro same
      contradiction
    · intro h
      exact absurd h.1 large

theorem isPrefixOf_congr {needle s t : Text} (ascii : ∀ c ∈ needle, c.val < 0x80)
    (same : skeleton s = skeleton t) : needle.isPrefixOf s = needle.isPrefixOf t := by
  induction needle generalizing s t with
  | nil => rw [List.isPrefixOf_nil_left, List.isPrefixOf_nil_left]
  | cons n needle ih =>
      cases s with
      | nil => rw [List.map_eq_nil_iff.1 same.symm]
      | cons c s =>
          cases t with
          | nil => contradiction
          | cons d t =>
              rw [skeleton_cons, skeleton_cons] at same
              obtain ⟨first, rest⟩ := List.cons.inj same
              have small := ascii n List.mem_cons_self
              have agree : (n == c) = (n == d) := by
                rw [Bool.eq_iff_iff, beq_iff_eq, beq_iff_eq]
                constructor
                · rintro rfl
                  rw [visible, if_pos small] at first
                  exact (visible_eq_some.1 first.symm).2.symm
                · rintro rfl
                  rw [visible, visible, if_pos small] at first
                  exact (visible_eq_some.1 first).2.symm
              rw [List.isPrefixOf_cons_cons, List.isPrefixOf_cons_cons, agree,
                ih (fun x mem => ascii x (List.mem_cons_of_mem _ mem)) rest]

theorem find_congr {needle s t : Text} (ascii : ∀ c ∈ needle, c.val < 0x80)
    (same : skeleton s = skeleton t) : find needle s = find needle t := by
  induction s generalizing t with
  | nil => rw [List.map_eq_nil_iff.1 same.symm]
  | cons c s ih =>
      cases t with
      | nil => contradiction
      | cons d t =>
          rw [find, find, isPrefixOf_congr ascii same, ih (List.cons.inj same).2]

/-- The delimiters and the scheme separator are ASCII, and none of them is trimmed. -/
theorem range_of_all {s : Text} (h : (s.all fun c => 0x20 < c.val && c.val < 0x80) = true) :
    ∀ c ∈ s, 0x20 < c.val ∧ c.val < 0x80 := by
  intro c mem
  have := List.all_eq_true.1 h c mem
  rw [Bool.and_eq_true, decide_eq_true_eq, decide_eq_true_eq] at this
  exact this

theorem range_scheme : ∀ c ∈ text "://", 0x20 < c.val ∧ c.val < 0x80 :=
  range_of_all (by decide)

theorem range_delimiters : ∀ c ∈ delimiters, 0x20 < c.val ∧ c.val < 0x80 :=
  range_of_all (by decide)

theorem skeleton_afterScheme {s t : Text} (same : skeleton s = skeleton t) :
    skeleton (afterScheme s) = skeleton (afterScheme t) := by
  rw [afterScheme, afterScheme, find_congr (fun c mem => (range_scheme c mem).2) same]
  cases find (text "://") t with
  | none => exact same
  | some scheme =>
      simp only
      rw [skeleton_drop, skeleton_drop, same]

theorem isDelimiter_iff {c : CodePoint} : isDelimiter c = true ↔
    (delimiters.map some).contains (visible c) = true := by
  rw [isDelimiter, List.contains_iff_mem, List.contains_iff_mem]
  constructor
  · intro mem
    rw [visible, if_pos (range_delimiters c mem).2]
    exact List.mem_map_of_mem mem
  · intro mem
    obtain ⟨d, known, same⟩ := List.mem_map.1 mem
    rw [(visible_eq_some.1 same.symm).2]
    exact known

theorem skeleton_takeWhile (s : Text) : skeleton (s.takeWhile fun c => !isDelimiter c) =
    (skeleton s).takeWhile fun v => !(delimiters.map some).contains v := by
  induction s with
  | nil => rfl
  | cons c s ih =>
      have agree : isDelimiter c = (delimiters.map some).contains (visible c) :=
        Bool.eq_iff_iff.2 isDelimiter_iff
      rw [skeleton_cons, List.takeWhile_cons, List.takeWhile_cons, ← agree]
      cases isDelimiter c with
      | true => rfl
      | false => exact congrArg (visible c :: ·) ih

/-- Two texts with the same ASCII characters have hosts with the same. -/
theorem skeleton_hostPart {s t : Text} (same : skeleton s = skeleton t) :
    skeleton (hostPart s) = skeleton (hostPart t) := by
  rw [hostPart_eq, hostPart_eq, skeleton_takeWhile, skeleton_takeWhile,
    skeleton_afterScheme same]

/-! ## Control characters at the ends -/

theorem isPrefixOf_append {needle s post : Text} (free : ∀ c ∈ needle, c ∉ post) :
    needle.isPrefixOf (s ++ post) = needle.isPrefixOf s := by
  induction needle generalizing s with
  | nil => rw [List.isPrefixOf_nil_left, List.isPrefixOf_nil_left]
  | cons n needle ih =>
      have rest : ∀ c ∈ needle, c ∉ post := fun c mem => free c (List.mem_cons_of_mem _ mem)
      cases s with
      | nil =>
          cases post with
          | nil => rfl
          | cons p post =>
              have ne : n ≠ p := by
                rintro rfl
                exact free n List.mem_cons_self List.mem_cons_self
              rw [List.nil_append, List.isPrefixOf_cons_cons, beq_false_of_ne ne]
              rfl
      | cons c s =>
          rw [List.cons_append, List.isPrefixOf_cons_cons, List.isPrefixOf_cons_cons, ih rest]

theorem find_eq_none {needle s : Text} {n : CodePoint} (first : needle.head? = some n)
    (free : n ∉ s) : find needle s = none := by
  induction s with
  | nil => rfl
  | cons c s ih =>
      rw [List.mem_cons, not_or] at free
      cases needle with
      | nil => contradiction
      | cons m needle =>
          cases Option.some.inj first
          rw [find, List.isPrefixOf_cons_cons, beq_false_of_ne free.1, Bool.false_and,
            if_neg Bool.false_ne_true, ih free.2]
          rfl

theorem find_append {needle s post : Text} {n : CodePoint} (first : needle.head? = some n)
    (free : ∀ c ∈ needle, c ∉ post) : find needle (s ++ post) = find needle s := by
  induction s with
  | nil => exact find_eq_none first (free n (List.mem_of_mem_head? first))
  | cons c s ih =>
      rw [List.cons_append, find, find, ih, ← List.cons_append, isPrefixOf_append free]

theorem find_prepend {needle pre s : Text} {n : CodePoint} (first : needle.head? = some n)
    (free : n ∉ pre) : find needle (pre ++ s) = (find needle s).map (· + pre.length) := by
  induction pre with
  | nil =>
      rw [List.nil_append, List.length_nil]
      cases find needle s <;> rfl
  | cons c pre ih =>
      rw [List.mem_cons, not_or] at free
      cases needle with
      | nil => contradiction
      | cons m needle =>
          cases Option.some.inj first
          rw [List.cons_append, find, List.isPrefixOf_cons_cons, beq_false_of_ne free.1,
            Bool.false_and, if_neg Bool.false_ne_true, ih free.2, Option.map_map]
          rfl

/-- A needle that is found fits. -/
theorem find_le {needle s : Text} {i : Nat} (h : find needle s = some i) :
    i + needle.length ≤ s.length := by
  induction s generalizing i with
  | nil => contradiction
  | cons c s ih =>
      rw [find] at h
      split at h
      · rename_i here
        cases h
        have := (List.isPrefixOf_iff_prefix.1 here).length_le
        omega
      · obtain ⟨j, found, rfl⟩ := Option.map_eq_some_iff.1 h
        have := ih found
        rw [List.length_cons]
        omega

/-- What `trim` takes off is no delimiter. -/
theorem not_isDelimiter_of_isTrimmed {c : CodePoint} (h : isTrimmed c = true) :
    isDelimiter c = false := by
  have small : c.val ≤ 0x20 := of_decide_eq_true h
  rw [Bool.eq_false_iff]
  intro delimits
  have := (range_delimiters c (List.contains_iff_mem.1 delimits)).1
  omega

theorem not_isOriginHostChar_of_isTrimmed {c : CodePoint} (h : isTrimmed c = true) :
    isOriginHostChar c = false := by
  have small : c.val ≤ 0x20 := of_decide_eq_true h
  simp only [isOriginHostChar, Bool.or_eq_false_iff, Bool.and_eq_false_iff,
    decide_eq_false_iff_not, beq_eq_false_iff_ne]
  omega

section Ends

variable {pre mid post : Text}

theorem scheme_free {ends : Text} (controls : ∀ c ∈ ends, isTrimmed c = true) :
    ∀ c ∈ text "://", c ∉ ends := by
  intro c mem there
  have small : c.val ≤ 0x20 := of_decide_eq_true (controls c there)
  have := (range_scheme c mem).1
  omega

/-- The scheme is cut off in front of what is in the middle. -/
theorem afterScheme_ends (front : ∀ c ∈ pre, isTrimmed c = true)
    (back : ∀ c ∈ post, isTrimmed c = true) : afterScheme (pre ++ mid ++ post) =
      (if (find (text "://") mid).isSome then afterScheme mid else pre ++ mid) ++ post := by
  have first : (text "://").head? = some (chr 0x3a) := rfl
  have found : find (text "://") (pre ++ mid ++ post) =
      (find (text "://") mid).map (· + pre.length) := by
    rw [find_append first (scheme_free back), find_prepend first
      (scheme_free front _ (List.mem_of_mem_head? first))]
  rw [afterScheme, found, afterScheme]
  cases at_ : find (text "://") mid with
  | none => rfl
  | some scheme =>
      have fits : scheme + 3 ≤ mid.length := find_le at_
      simp only [Option.map_some, Option.isSome_some, if_true]
      have offset : scheme + pre.length + 3 = pre.length + (scheme + 3) := by omega
      rw [List.append_assoc, offset, List.drop_length_add_append,
        List.drop_append_of_le_length fits]

theorem takeWhile_append_controls {xs ends : Text} (controls : ∀ c ∈ ends, isTrimmed c = true)
    (clean : ((xs ++ ends).takeWhile fun c => !isDelimiter c).all isOriginHostChar = true) :
    (xs ++ ends).takeWhile (fun c => !isDelimiter c) = xs.takeWhile fun c => !isDelimiter c := by
  rw [List.takeWhile_append] at clean ⊢
  split
  · rename_i whole
    rw [if_pos whole] at clean
    cases ends with
    | nil =>
        rw [List.takeWhile_nil, List.append_nil]
        exact ((List.takeWhile_prefix _).eq_of_length whole).symm
    | cons c ends =>
        have control := controls c List.mem_cons_self
        have kept : c ∈ xs ++ (c :: ends).takeWhile fun c => !isDelimiter c := by
          rw [List.takeWhile_cons, not_isDelimiter_of_isTrimmed control]
          exact List.mem_append_right _ List.mem_cons_self
        have := List.all_eq_true.1 clean c kept
        rw [not_isOriginHostChar_of_isTrimmed control] at this
        contradiction
  · rfl

theorem takeWhile_controls_append {xs ends : Text} (controls : ∀ c ∈ ends, isTrimmed c = true)
    (clean : ((ends ++ xs).takeWhile fun c => !isDelimiter c).all isOriginHostChar = true) :
    (ends ++ xs).takeWhile (fun c => !isDelimiter c) = xs.takeWhile fun c => !isDelimiter c := by
  cases ends with
  | nil => rfl
  | cons c ends =>
      have control := controls c List.mem_cons_self
      rw [List.cons_append, List.takeWhile_cons, not_isDelimiter_of_isTrimmed control] at clean
      have := List.all_eq_true.1 clean c List.mem_cons_self
      rw [not_isOriginHostChar_of_isTrimmed control] at this
      contradiction

/-- A host that has no control characters is read the same without them. -/
theorem hostPart_ends (front : ∀ c ∈ pre, isTrimmed c = true)
    (back : ∀ c ∈ post, isTrimmed c = true)
    (clean : (hostPart (pre ++ mid ++ post)).all isOriginHostChar = true) :
    hostPart (pre ++ mid ++ post) = hostPart mid := by
  rw [hostPart_eq, afterScheme_ends front back] at clean ⊢
  rw [takeWhile_append_controls back clean, hostPart_eq]
  rw [takeWhile_append_controls back clean] at clean
  cases found : find (text "://") mid with
  | some scheme => rw [Option.isSome_some, if_pos rfl]
  | none =>
      rw [found, Option.isSome_none, if_neg Bool.false_ne_true] at clean
      rw [Option.isSome_none, if_neg Bool.false_ne_true, takeWhile_controls_append front clean,
        afterScheme, found]

end Ends

/-! ## Both ends -/

/-- What `strip` and `trim` leave, each with its own notion of what goes. -/
theorem exists_ends (p : CodePoint → Bool) (s : Text) : ∃ pre post,
    (∀ c ∈ pre, p c = true) ∧ (∀ c ∈ post, p c = true) ∧
      s = pre ++ (s.dropWhile p).rdropWhile p ++ post := by
  refine ⟨s.takeWhile p, (s.dropWhile p).rtakeWhile p, ?_, ?_, ?_⟩
  · intro c mem
    exact List.mem_takeWhile_imp mem
  · intro c mem
    exact List.mem_rtakeWhile_imp mem
  · rw [List.append_assoc, List.rdropWhile_append_rtakeWhile, List.takeWhile_append_dropWhile]

theorem strip_strip (s : Text) : strip (strip s) = strip s := ends_idempotent isSpace s

/-! ## The two readers -/

variable {P J : Lowering}

theorem lower_controls {L : Lowering} {ends : Text} (controls : ∀ c ∈ ends, isTrimmed c = true) :
    L.lower ends = ends := by
  apply Lowering.lower_eq_self
  intro c mem
  have small : c.val ≤ 0x20 := of_decide_eq_true (controls c mem)
  omega

theorem ascii_of_originHost {s : Text} (clean : s.all isOriginHostChar = true) :
    ∀ c ∈ s, c.val < 0x80 ∧ ¬ (0x41 ≤ c.val ∧ c.val ≤ 0x5a) := by
  intro c mem
  have := List.all_eq_true.1 clean c mem
  simp only [isOriginHostChar, Bool.or_eq_true, Bool.and_eq_true, decide_eq_true_eq,
    beq_iff_eq] at this
  omega

/-- Where Python reads a host the send path can carry, Java reads the same one. -/
theorem hostOf_eq_originHost {origin : Text}
    (clean : (originHost P origin).all isOriginHostChar = true) :
    hostOf J (strip origin) = originHost P (strip origin) := by
  have stored : originHost P (strip origin) = originHost P origin := by
    rw [originHost, strip_strip, originHost]
  rw [← stored] at clean
  rw [originHost, strip_strip] at clean ⊢
  obtain ⟨pre, post, front, back, whole⟩ := exists_ends isTrimmed (strip origin)
  have seen : skeleton (P.lower (strip origin)) =
      skeleton (pre ++ J.lower (trim (strip origin)) ++ post) := by
    conv_lhs => rw [whole]
    rw [Lowering.skeleton_lower_append (M := J), Lowering.skeleton_lower_append (M := J),
      skeleton_append, skeleton_append, lower_controls front, lower_controls back]
    rfl
  have same : hostPart (P.lower (strip origin)) =
      hostPart (pre ++ J.lower (trim (strip origin)) ++ post) :=
    eq_of_skeleton_eq (fun c mem => (ascii_of_originHost clean c mem).1) (skeleton_hostPart seen)
  rw [same] at clean ⊢
  rw [hostPart_ends front back clean, hostOf]

theorem length_hostPart_le (s : Text) : (hostPart s).length ≤ s.length := by
  rw [hostPart_eq, afterScheme]
  refine Nat.le_trans (List.takeWhile_prefix _).length_le ?_
  cases find (text "://") s with
  | none => exact Nat.le_refl _
  | some scheme => exact (List.drop_sublist _ _).length_le

theorem hostPart_eq_self_iff {s : Text} :
    hostPart s = s ↔ ∀ c ∈ s, isDelimiter c = false := by
  constructor
  · intro same
    rw [hostPart_eq, afterScheme] at same
    cases found : find (text "://") s with
    | none =>
        rw [found] at same
        intro c mem
        have := List.takeWhile_eq_self_iff.1 same c mem
        rwa [Bool.not_eq_true'] at this
    | some scheme =>
        rw [found] at same
        have fits : scheme + 3 ≤ s.length := find_le found
        have short : s.length ≤ (s.drop (scheme + 3)).length := by
          conv_lhs => rw [← same]
          exact (List.takeWhile_prefix _).length_le
        rw [List.length_drop] at short
        omega
  · intro plain
    have colon : isDelimiter (chr 0x3a) = true := by decide
    have first : (text "://").head? = some (chr 0x3a) := rfl
    have absent : find (text "://") s = none := by
      apply find_eq_none first
      intro mem
      rw [plain _ mem] at colon
      contradiction
    rw [hostPart_eq, afterScheme, absent, List.takeWhile_eq_self_iff]
    intro c mem
    rw [plain c mem]
    rfl

theorem isDelimiter_lower_iff {L : Lowering} {s : Text} :
    (∀ c ∈ L.lower s, isDelimiter c = false) ↔ ∀ c ∈ s, isDelimiter c = false := by
  have letterless : ∀ {c}, isDelimiter c = true → (c ∈ L.lower s ↔ c ∈ s) := by
    intro c delimits
    have all : (delimiters.all fun d => (0x20 < d.val && d.val < 0x41) &&
      d.val < 0x80) = true := by decide
    have := List.all_eq_true.1 all c (List.contains_iff_mem.1 delimits)
    simp only [Bool.and_eq_true, decide_eq_true_eq] at this
    exact Lowering.mem_lower_iff this.2 (by omega) (by omega)
  constructor
  · intro plain c mem
    rw [Bool.eq_false_iff]
    intro delimits
    have := plain c ((letterless delimits).2 mem)
    rw [delimits] at this
    contradiction
  · intro plain c mem
    rw [Bool.eq_false_iff]
    intro delimits
    have := plain c ((letterless delimits).1 mem)
    rw [delimits] at this
    contradiction

/-- A bare host that is read as itself: nothing in it cuts it and nothing is trimmed. -/
def Bare (host : Text) : Prop := (∀ c ∈ host, isDelimiter c = false) ∧ trim host = host

theorem hostOf_eq_lower_iff {host : Text} : hostOf J host = J.lower host ↔ Bare host := by
  constructor
  · intro same
    obtain ⟨pre, post, _, _, whole⟩ := exists_ends isTrimmed host
    have parts : (J.lower host).length =
        (J.lower pre).length + (J.lower (trim host)).length + (J.lower post).length := by
      conv_lhs => rw [whole]
      rw [Lowering.length_lower_append, Lowering.length_lower_append]
      rfl
    have short := length_hostPart_le (J.lower (trim host))
    rw [show hostPart (J.lower (trim host)) = J.lower host from same] at short
    have empty : ∀ {ends : Text}, (J.lower ends).length = 0 → ends = [] := by
      intro ends zero
      by_contra some_
      exact Nat.ne_of_gt (Lowering.length_lower_pos some_) zero
    have noPre : pre = [] := empty (by omega)
    have noPost : post = [] := empty (by omega)
    have trimmed : trim host = host := by
      rw [noPre, noPost, List.nil_append, List.append_nil] at whole
      exact whole.symm
    rw [hostOf, trimmed, hostPart_eq_self_iff, isDelimiter_lower_iff] at same
    exact ⟨same, trimmed⟩
  · rintro ⟨plain, trimmed⟩
    rw [hostOf, trimmed, hostPart_eq_self_iff, isDelimiter_lower_iff]
    exact plain

end Hx.Identity
