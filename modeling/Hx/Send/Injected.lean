import Hx.Java.Utf16
import Hx.Library.Cuts
import Hx.Send.Request
import Mathlib.Data.List.Sort

/-!
# Injected ranges

`Injected` holds the byte ranges that were written into one array, which it knows by identity.
`redactRequest` is that array with a placeholder in the place of each range. What it has to do
is said by a layout: the array as pieces, of which some are kept and some hold a credential.
-/

namespace Hx.Send

open Hx.Java Hx.Bridge Hx.Policy

/-! ## Ranges -/

def Range.meets (r s : Range) : Prop := r.start < s.stop ∧ s.start < r.stop

instance (r s : Range) : Decidable (r.meets s) := inferInstanceAs (Decidable (_ ∧ _))

/-- A reference to an array: two arrays of equal bytes are still two. -/
abbrev ArrayRef := ℕ

/-- The bytes of every array, at the time of a call. -/
abbrev Heap := ArrayRef → List UInt8

/-- `Injected`: no range of it is empty or without an identity, and no two meet. -/
structure Injected where
  forThese : ArrayRef
  ranges : List Range
  proper : ∀ r ∈ ranges, r.identityId ≠ [] ∧ r.start < r.stop
  apart : ranges.Pairwise fun r s => ¬ r.meets s

/-- The arguments of a call of `register`; an identity may be `null`. -/
structure Registration where
  identityId : Option JString
  start : Int
  stop : Int

/-- The range that a call registers. -/
def Registration.range (c : Registration) : Range :=
  ⟨c.identityId.getD [], c.start.toNat, c.stop.toNat⟩

/-- What a call of `redactRequest` throws. -/
inductive Thrown where
  | rangeError (text : JString)
  | indexOutOfBounds
  deriving DecidableEq

namespace Injected

/-- A new range set of an array. -/
def new (forThese : ArrayRef) : Injected :=
  ⟨forThese, [], List.forall_mem_nil _, List.Pairwise.nil⟩

def intText (n : Int) : JString := js (toString n)

def rangeText (start stop : Int) : JString :=
  js "[" ++ intText start ++ js "," ++ intText stop ++ js ")"

section Add

variable {i : Injected} {c : Registration} {r : Range}

theorem proper_append (named : r.identityId ≠ []) (proper : r.start < r.stop) :
    ∀ s ∈ i.ranges ++ [r], s.identityId ≠ [] ∧ s.start < s.stop := by
  intro s mem
  obtain mem | mem := List.mem_append.1 mem
  · exact i.proper s mem
  · rw [List.mem_singleton.1 mem]
    exact ⟨named, proper⟩

theorem apart_append (free : ∀ s ∈ i.ranges, ¬ s.meets r) :
    (i.ranges ++ [r]).Pairwise fun r s => ¬ r.meets s := by
  refine List.pairwise_append.2 ⟨i.apart, List.pairwise_singleton _ _, fun s mem t last => ?_⟩
  rw [List.mem_singleton.1 last]
  exact free s mem

theorem start_lt_stop (proper : ¬ (c.start < 0 ∨ c.stop ≤ c.start)) :
    c.range.start < c.range.stop := by
  show c.start.toNat < c.stop.toNat
  omega

theorem meets_range (proper : ¬ (c.start < 0 ∨ c.stop ≤ c.start)) :
    r.meets c.range ↔ c.start < r.stop ∧ r.start < c.stop := by
  show r.start < c.stop.toNat ∧ c.start.toNat < r.stop ↔ _
  omega

/-- The first registered range that a call overlaps. -/
def overlapped (i : Injected) (c : Registration) : Option Range :=
  i.ranges.find? fun r => c.start < r.stop ∧ r.start < c.stop

theorem free_of_overlapped (proper : ¬ (c.start < 0 ∨ c.stop ≤ c.start))
    (none_ : i.overlapped c = none) : ∀ s ∈ i.ranges, ¬ s.meets c.range := by
  intro s mem meets
  exact List.find?_eq_none.1 none_ s mem (decide_eq_true ((meets_range proper).1 meets))

end Add

/-- The range set with one more range. -/
def add (i : Injected) (r : Range) (named : r.identityId ≠ []) (proper : r.start < r.stop)
    (free : ∀ s ∈ i.ranges, ¬ s.meets r) : Injected :=
  ⟨i.forThese, i.ranges ++ [r], proper_append named proper, apart_append free⟩

/-- `register`: the set after the call, and what it throws. -/
def register (i : Injected) (c : Registration) : Injected × Option JString :=
  if named : c.range.identityId = [] then
    (i, some (js "a registered range must name an identity"))
  else if proper : c.start < 0 ∨ c.stop ≤ c.start then
    (i, some (js "not a range: " ++ rangeText c.start c.stop))
  else
    match found : i.overlapped c with
    | some r => (i, some (js "range " ++ rangeText c.start c.stop ++ js " overlaps " ++
        rangeText r.start r.stop ++ js " registered for " ++ r.identityId))
    | none => (i.add c.range named (start_lt_stop proper) (free_of_overlapped proper found), none)

/-- The ranges of an array after a run of calls, some of which may have thrown. -/
def measured (a : ArrayRef) (cs : List Registration) : Injected :=
  cs.foldl (fun i c => (i.register c).1) (new a)

end Injected

/-- `\x7b\x7bidentity:...:authz\x7d\x7d` as it is written. -/
def placeholder (id : JString) : List UInt8 :=
  getBytes (js "\x7b\x7bidentity:" ++ id ++ js ":authz\x7d\x7d")

/-- The copy loop from a position on. A range that starts before it would make `write` throw. -/
def copied (raw : List UInt8) (at' : ℕ) : List Range → Except Thrown (List UInt8)
  | [] => if raw.length < at' then .error .indexOutOfBounds else .ok (raw.drop at')
  | r :: rs =>
      if r.start < at' ∨ raw.length < r.start then .error .indexOutOfBounds
      else (copied raw r.stop rs).map fun rest =>
        (raw.drop at').take (r.start - at') ++ placeholder r.identityId ++ rest

def byStart (rs : List Range) : List Range := rs.insertionSort fun r s => r.start ≤ s.start

/-- `redactRequest`, on references that may be `null`. -/
def redactRequest (heap : Heap) (raw : Option ArrayRef) (injected : Option Injected) :
    Except Thrown (List UInt8) :=
  match raw, injected with
  | none, _ => .error (.rangeError (js "redactRequest needs the request bytes"))
  | some _, none =>
      .error (.rangeError (js "redactRequest needs the ranges injected into these bytes"))
  | some raw, some injected =>
      if injected.forThese ≠ raw then
        .error (.rangeError (js "these ranges were measured from another " ++
          numberText (heap injected.forThese).length ++ js "-byte array, not the " ++
          numberText (heap raw).length ++ js "-byte request being redacted"))
      else if injected.ranges = [] then .ok (heap raw)
      else
        match (byStart injected.ranges).find? fun r => (heap raw).length < r.stop with
        | some r => .error (.rangeError (js "range " ++ Injected.rangeText r.start r.stop ++
            js " registered for " ++ r.identityId ++ js " runs past the " ++
            numberText (heap raw).length ++ js "-byte request"))
        | none => copied (heap raw) 0 (byStart injected.ranges)

/-! ## What a call registers -/

namespace Injected

/-- The calls that throw: without an identity, not a range, or over a registered one. -/
def Refused (i : Injected) (c : Registration) : Prop :=
  c.identityId.getD [] = [] ∨ c.start < 0 ∨ c.stop ≤ c.start ∨
    ∃ r ∈ i.ranges, c.start < r.stop ∧ r.start < c.stop

theorem register_refused {i : Injected} {c : Registration} (refused : i.Refused c) :
    (i.register c).2.isSome = true ∧ (i.register c).1 = i := by
  rw [register]
  split
  · exact ⟨rfl, rfl⟩
  rename_i named
  split
  · exact ⟨rfl, rfl⟩
  rename_i proper
  split
  · exact ⟨rfl, rfl⟩
  · rename_i found
    obtain none_ | low | empty | ⟨r, mem, over_⟩ := refused
    · exact absurd none_ named
    · exact absurd (Or.inl low) proper
    · exact absurd (Or.inr empty) proper
    · exact absurd (decide_eq_true over_) (List.find?_eq_none.1 found r mem)

theorem register_accepted {i : Injected} {c : Registration} (accepted : ¬ i.Refused c) :
    (i.register c).2 = none ∧ (i.register c).1.forThese = i.forThese ∧
      (i.register c).1.ranges = i.ranges ++ [c.range] := by
  rw [register]
  split
  · rename_i none_
    exact absurd (Or.inl none_) accepted
  split
  · rename_i improper
    exact absurd (Or.inr (improper.imp_right Or.inl)) accepted
  split
  · rename_i r found
    refine absurd (Or.inr (Or.inr (Or.inr ⟨r, List.mem_of_find?_eq_some found, ?_⟩))) accepted
    have clash := List.find?_some found
    exact of_decide_eq_true clash
  · exact ⟨rfl, rfl, rfl⟩

theorem register_refused_iff {i : Injected} {c : Registration} :
    (i.register c).2.isSome = true ↔ i.Refused c := by
  refine ⟨fun thrown => ?_, fun refused => (register_refused refused).1⟩
  by_contra accepted
  rw [(register_accepted accepted).1] at thrown
  exact Bool.false_ne_true thrown

theorem forThese_register {i : Injected} {c : Registration} :
    (i.register c).1.forThese = i.forThese := by
  by_cases refused : i.Refused c
  · rw [(register_refused refused).2]
  · exact (register_accepted refused).2.1

theorem forThese_foldl {i : Injected} {cs : List Registration} :
    (cs.foldl (fun i c => (i.register c).1) i).forThese = i.forThese := by
  induction cs generalizing i with
  | nil => rfl
  | cons c cs ih => exact ih.trans forThese_register

theorem forThese_measured (a : ArrayRef) (cs : List Registration) : (measured a cs).forThese = a :=
  forThese_foldl

theorem register_unnamed {i : Injected} {c : Registration} (unnamed : c.range.identityId = []) :
    i.register c = (i, some (js "a registered range must name an identity")) := by
  rw [register, dif_pos unnamed]

theorem register_improper {i : Injected} {c : Registration} (named : c.range.identityId ≠ [])
    (improper : c.start < 0 ∨ c.stop ≤ c.start) :
    i.register c = (i, some (js "not a range: " ++ rangeText c.start c.stop)) := by
  rw [register, dif_neg named, dif_pos improper]

end Injected

/-! ## Layouts -/

/-- A piece of an array: kept as it is, or held for an identity. -/
inductive Piece where
  | kept (bytes : List UInt8)
  | held (identityId : JString) (bytes : List UInt8)

namespace Piece

def bytes : Piece → List UInt8
  | kept bytes => bytes
  | held _ bytes => bytes

def redacted : Piece → List UInt8
  | kept bytes => bytes
  | held id _ => placeholder id

/-- The ranges of the pieces that are held, where the first piece starts at a position. -/
def ranges : ℕ → List Piece → List Range
  | _, [] => []
  | at', kept bytes :: ps => ranges (at' + bytes.length) ps
  | at', held id bytes :: ps =>
      ⟨id, at', at' + bytes.length⟩ :: ranges (at' + bytes.length) ps

/-- Pieces that differ at most in what is held. -/
inductive Alike : Piece → Piece → Prop
  | kept (bytes : List UInt8) : Alike (kept bytes) (kept bytes)
  | held (id : JString) (first second : List UInt8) : Alike (held id first) (held id second)

end Piece

/-- The array that some pieces make, and what is left of it. -/
def bytesOf (ps : List Piece) : List UInt8 := ps.flatMap Piece.bytes

def redactedOf (ps : List Piece) : List UInt8 := ps.flatMap Piece.redacted

theorem redactedOf_alike {ps qs : List Piece} (alike : List.Forall₂ Piece.Alike ps qs) :
    redactedOf ps = redactedOf qs := by
  induction alike with
  | nil => rfl
  | cons first _ ih =>
      rw [redactedOf, List.flatMap_cons, redactedOf, List.flatMap_cons]
      cases first with
      | kept bytes => exact congrArg _ ih
      | held id first second => exact congrArg _ ih

section Copied

variable {raw pre : List UInt8} {at' m : ℕ} {rs : List Range} {r : Range} {ps : List Piece}

theorem start_ranges : ∀ r ∈ Piece.ranges at' ps, at' ≤ r.start := by
  induction ps generalizing at' with
  | nil => exact List.forall_mem_nil _
  | cons p ps ih =>
      cases p with
      | kept bytes => exact fun r mem => (Nat.le_add_right _ _).trans (ih r mem)
      | held id bytes =>
          refine List.forall_mem_cons.2 ⟨Nat.le_refl _, fun r mem => ?_⟩
          exact (Nat.le_add_right _ _).trans (ih r mem)

theorem stop_ranges : ∀ r ∈ Piece.ranges at' ps, r.stop ≤ at' + (bytesOf ps).length := by
  induction ps generalizing at' with
  | nil => exact List.forall_mem_nil _
  | cons p ps ih =>
      have size : (bytesOf (p :: ps)).length = p.bytes.length + (bytesOf ps).length := by
        rw [bytesOf, List.flatMap_cons, List.length_append, bytesOf]
      rw [size, ← Nat.add_assoc]
      cases p with
      | kept bytes => exact ih
      | held id bytes => exact List.forall_mem_cons.2 ⟨Nat.le_add_right _ _, ih⟩

/-- What comes before the first range is copied. -/
theorem copied_from (low : at' ≤ m) (within : m ≤ raw.length) (later : ∀ r ∈ rs, m ≤ r.start) :
    copied raw at' rs =
      (copied raw m rs).map fun rest => (raw.drop at').take (m - at') ++ rest := by
  cases rs with
  | nil =>
      rw [copied, copied, if_neg (Nat.not_lt.2 (low.trans within)), if_neg (Nat.not_lt.2 within)]
      exact congrArg Except.ok (Library.Cut.take_drop_append_drop low).symm
  | cons r rs =>
      have first := later r List.mem_cons_self
      rw [copied, copied]
      by_cases beyond : raw.length < r.start
      · rw [if_pos (Or.inr beyond), if_pos (Or.inr beyond)]
        rfl
      · have middle : (raw.drop at').take (r.start - at') =
            (raw.drop at').take (m - at') ++ (raw.drop m).take (r.start - m) := by
          have sum : r.start - at' = (m - at') + (r.start - m) := by omega
          rw [sum, List.take_add, List.drop_drop, Nat.add_sub_cancel' low]
        rw [if_neg (by omega), if_neg (by omega), middle]
        cases copied raw r.stop rs with
        | error thrown => rfl
        | ok rest =>
            refine congrArg Except.ok ?_
            simp only [List.append_assoc]

/-- The copy of an array along its layout. -/
theorem copied_layout :
    copied (pre ++ bytesOf ps) pre.length (Piece.ranges pre.length ps) = .ok (redactedOf ps) := by
  induction ps generalizing pre with
  | nil =>
      have whole : pre ++ bytesOf [] = pre := List.append_nil pre
      rw [whole, Piece.ranges, copied, if_neg (Nat.lt_irrefl _), List.drop_length]
      rfl
  | cons p ps ih =>
      have bytes : pre ++ bytesOf (p :: ps) = pre ++ p.bytes ++ bytesOf ps := by
        rw [bytesOf, List.flatMap_cons, ← List.append_assoc, bytesOf]
      have redacted : redactedOf (p :: ps) = p.redacted ++ redactedOf ps := List.flatMap_cons
      have next : copied (pre ++ p.bytes ++ bytesOf ps) (pre ++ p.bytes).length
          (Piece.ranges (pre ++ p.bytes).length ps) = .ok (redactedOf ps) := ih
      have low : pre.length ≤ (pre ++ p.bytes).length := (List.prefix_append _ _).length_le
      have within : (pre ++ p.bytes).length ≤ (pre ++ p.bytes ++ bytesOf ps).length :=
        (List.prefix_append _ _).length_le
      have cut : ((pre ++ p.bytes ++ bytesOf ps).drop pre.length).take
          ((pre ++ p.bytes).length - pre.length) = p.bytes := by
        rw [List.append_assoc, List.drop_left, List.length_append, Nat.add_sub_cancel_left,
          List.take_left]
      rw [bytes, redacted]
      cases p with
      | kept kept =>
          dsimp only [Piece.bytes] at next low within cut ⊢
          have ranges : Piece.ranges pre.length (.kept kept :: ps) =
              Piece.ranges (pre ++ kept).length ps := by
            rw [Piece.ranges, List.length_append]
          rw [ranges, copied_from low within start_ranges, next]
          exact congrArg (fun first => Except.ok (first ++ redactedOf ps)) cut
      | held id held =>
          dsimp only [Piece.bytes] at next low within ⊢
          have ranges : Piece.ranges pre.length (.held id held :: ps) =
              ⟨id, pre.length, (pre ++ held).length⟩ :: Piece.ranges (pre ++ held).length ps := by
            rw [Piece.ranges, List.length_append]
          have inside : ¬ (pre.length < pre.length ∨
              (pre ++ held ++ bytesOf ps).length < pre.length) := by
            exact not_or.2 ⟨Nat.lt_irrefl _, Nat.not_lt.2 (low.trans within)⟩
          rw [ranges, copied, if_neg inside]
          dsimp only
          rw [next, Nat.sub_self, List.take_zero]
          rfl

end Copied

/-! ## The registered ranges in their order -/

/-- Ranges that are not empty, each behind the one before it. -/
structure Ascending (rs : List Range) : Prop where
  proper : ∀ r ∈ rs, r.start < r.stop
  ordered : rs.Pairwise fun r s => r.stop ≤ s.start

instance : IsTrans Range fun r s => r.start ≤ s.start := ⟨fun _ _ _ => Nat.le_trans⟩

instance : Std.Total (α := Range) fun r s => r.start ≤ s.start :=
  ⟨fun r s => Nat.le_total r.start s.start⟩

theorem perm_byStart (rs : List Range) : (byStart rs).Perm rs := List.perm_insertionSort _ _

theorem Injected.ascending (i : Injected) : Ascending (byStart i.ranges) := by
  have among := fun r => (perm_byStart i.ranges).mem_iff (a := r)
  refine ⟨fun r mem => (i.proper r ((among r).1 mem)).2, ?_⟩
  have sorted : (byStart i.ranges).Pairwise fun r s => r.start ≤ s.start :=
    List.pairwise_insertionSort _ _
  have apart : (byStart i.ranges).Pairwise fun r s => ¬ r.meets s := by
    refine ((perm_byStart i.ranges).pairwise_iff ?_).2 i.apart
    exact fun free meets => free ⟨meets.2, meets.1⟩
  refine (sorted.and apart).imp_of_mem fun memR memS both => ?_
  have proper := (i.proper _ ((among _).1 memS)).2
  have free := both.2
  rw [Range.meets] at free
  omega

theorem Ascending.of_perm {rs ss : List Range} (first : Ascending rs) (second : Ascending ss)
    (perm : rs.Perm ss) : rs = ss := by
  refine List.Perm.eq_of_pairwise ?_ first.ordered second.ordered perm
  intro r s memR memS before after
  have proper := first.proper r memR
  have other := second.proper s memS
  omega

theorem ordered_ranges {ps : List Piece} {at' : ℕ} :
    (Piece.ranges at' ps).Pairwise fun r s => r.stop ≤ s.start := by
  induction ps generalizing at' with
  | nil => exact List.Pairwise.nil
  | cons p ps ih =>
      cases p with
      | kept bytes => exact ih
      | held id bytes => exact List.pairwise_cons.2 ⟨start_ranges, ih⟩

/-- The layout that some ranges cut an array into, from a position on. -/
def layoutOf (raw : List UInt8) (at' : ℕ) : List Range → List Piece
  | [] => [.kept (raw.drop at')]
  | r :: rs =>
      .kept ((raw.drop at').take (r.start - at')) ::
        .held r.identityId ((raw.drop r.start).take (r.stop - r.start)) :: layoutOf raw r.stop rs

/-- Ranges within an array are those of the layout they cut it into. -/
theorem layout_of_ranges {raw : List UInt8} {at' : ℕ} {rs : List Range} (ascending : Ascending rs)
    (later : ∀ r ∈ rs, at' ≤ r.start) (within : ∀ r ∈ rs, r.stop ≤ raw.length) :
    bytesOf (layoutOf raw at' rs) = raw.drop at' ∧
      Piece.ranges at' (layoutOf raw at' rs) = rs := by
  induction rs generalizing at' with
  | nil =>
      refine ⟨List.append_nil _, rfl⟩
  | cons r rs ih =>
      have first := later r List.mem_cons_self
      have ends := within r List.mem_cons_self
      have proper := ascending.proper r List.mem_cons_self
      obtain ⟨behind, ordered⟩ := List.pairwise_cons.1 ascending.ordered
      have rest : Ascending rs :=
        ⟨fun s mem => ascending.proper s (List.mem_cons_of_mem _ mem), ordered⟩
      obtain ⟨bytes, ranges⟩ := ih rest behind fun s mem => within s (List.mem_cons_of_mem _ mem)
      constructor
      · rw [layoutOf, bytesOf, List.flatMap_cons, List.flatMap_cons]
        show (raw.drop at').take (r.start - at') ++
          ((raw.drop r.start).take (r.stop - r.start) ++ bytesOf (layoutOf raw r.stop rs)) = _
        rw [bytes, Library.Cut.take_drop_append_drop proper.le,
          Library.Cut.take_drop_append_drop first]
      · have before : at' + ((raw.drop at').take (r.start - at')).length = r.start := by
          rw [List.length_take, List.length_drop]
          omega
        have during : r.start + ((raw.drop r.start).take (r.stop - r.start)).length = r.stop := by
          rw [List.length_take, List.length_drop]
          omega
        rw [layoutOf, Piece.ranges, before, Piece.ranges, during, ranges]

/-! ## Redacting -/

section Redact

variable {heap : Heap} {a : ArrayRef} {i : Injected} {ps : List Piece}

/-- An array that is laid out along the registered ranges. -/
theorem redactRequest_layout (own : i.forThese = a) (bytes : bytesOf ps = heap a)
    (ranges : i.ranges.Perm (Piece.ranges 0 ps)) :
    redactRequest heap (some a) (some i) = .ok (redactedOf ps) := by
  have along : copied (heap a) 0 (Piece.ranges 0 ps) = .ok (redactedOf ps) := by
    have whole : copied ([] ++ bytesOf ps) 0 (Piece.ranges 0 ps) = .ok (redactedOf ps) :=
      copied_layout
    rw [← bytes]
    exact whole
  have proper : ∀ r ∈ Piece.ranges 0 ps, r.start < r.stop := fun r mem =>
    (i.proper r (ranges.mem_iff.2 mem)).2
  have sorted : byStart i.ranges = Piece.ranges 0 ps :=
    i.ascending.of_perm ⟨proper, ordered_ranges⟩ ((perm_byStart _).trans ranges)
  rw [redactRequest]
  rw [if_neg (not_not.2 own)]
  by_cases none_ : i.ranges = []
  · rw [none_, List.nil_perm] at ranges
    rw [ranges, copied, if_neg (Nat.not_lt_zero _)] at along
    rw [if_pos none_]
    exact along
  · have fits : (byStart i.ranges).find? (fun r => (heap a).length < r.stop) = none := by
      refine List.find?_eq_none.2 fun r mem beyond => ?_
      rw [sorted] at mem
      have stops := stop_ranges r mem
      rw [bytes, Nat.zero_add] at stops
      exact Nat.not_lt.2 stops (of_decide_eq_true beyond)
    rw [if_neg none_, fits, sorted]
    exact along

/-- What has to hold of the ranges and the array for `redactRequest` to return. -/
def Fits (heap : Heap) (a : ArrayRef) (i : Injected) : Prop :=
  i.forThese = a ∧ ∀ r ∈ i.ranges, r.stop ≤ (heap a).length

theorem redactRequest_fits (fits : Fits heap a i) :
    ∃ ps, bytesOf ps = heap a ∧ i.ranges.Perm (Piece.ranges 0 ps) ∧
      redactRequest heap (some a) (some i) = .ok (redactedOf ps) := by
  obtain ⟨own, within⟩ := fits
  have inside : ∀ r ∈ byStart i.ranges, r.stop ≤ (heap a).length := fun r mem =>
    within r ((perm_byStart _).mem_iff.1 mem)
  obtain ⟨bytes, ranges⟩ := layout_of_ranges i.ascending (fun r _ => Nat.zero_le r.start) inside
  have perm : i.ranges.Perm (Piece.ranges 0 (layoutOf (heap a) 0 (byStart i.ranges))) := by
    rw [ranges]
    exact (perm_byStart _).symm
  exact ⟨_, bytes, perm, redactRequest_layout own bytes perm⟩

theorem redactRequest_unfit (unfit : ¬ Fits heap a i) :
    ∃ text, redactRequest heap (some a) (some i) = .error (.rangeError text) := by
  rw [redactRequest]
  by_cases own : i.forThese = a
  · rw [if_neg (not_not.2 own)]
    have past : ∃ r ∈ i.ranges, (heap a).length < r.stop := by
      by_contra none_
      push Not at none_
      exact unfit ⟨own, none_⟩
    obtain ⟨r, mem, beyond⟩ := past
    rw [if_neg (List.ne_nil_of_mem mem)]
    cases found : (byStart i.ranges).find? fun r => (heap a).length < r.stop with
    | none =>
        have listed := (perm_byStart i.ranges).mem_iff.2 mem
        exact absurd (decide_eq_true beyond) (List.find?_eq_none.1 found r listed)
    | some s => exact ⟨_, rfl⟩
  · rw [if_pos own]
    exact ⟨_, rfl⟩

end Redact

open Injected in
/-- After any run of calls, a call throws exactly when it names no identity or its range is
empty, negative or over a registered one, and then registers nothing; else it registers its
range. `redactRequest` throws a `RangeError` exactly on an array that the ranges were not measured
from or that one of them runs past; on any other it returns, with each range replaced by its
placeholder and every other byte kept. Two arrays that are laid out alike around the ranges
registered for them redact alike. -/
theorem redactRequest_exact (heap : Heap) (a : ArrayRef) (cs : List Registration) :
    (∀ c, ((measured a cs).register c).2.isSome = true ↔ (measured a cs).Refused c) ∧
      (∀ c, (measured a cs).Refused c → ((measured a cs).register c).1 = measured a cs) ∧
      (∀ c, ¬ (measured a cs).Refused c →
        ((measured a cs).register c).1.ranges = (measured a cs).ranges ++ [c.range]) ∧
      (∀ b, (∃ text,
          redactRequest heap (some b) (some (measured a cs)) = .error (.rangeError text)) ↔
        b ≠ a ∨ ∃ r ∈ (measured a cs).ranges, (heap b).length < r.stop) ∧
      ((∀ r ∈ (measured a cs).ranges, r.stop ≤ (heap a).length) →
        ∃ ps, bytesOf ps = heap a ∧ (measured a cs).ranges.Perm (Piece.ranges 0 ps) ∧
          redactRequest heap (some a) (some (measured a cs)) = .ok (redactedOf ps)) ∧
      ∀ (b : ArrayRef) (ds : List Registration) (ps qs : List Piece),
        bytesOf ps = heap a → bytesOf qs = heap b → List.Forall₂ Piece.Alike ps qs →
        (measured a cs).ranges.Perm (Piece.ranges 0 ps) →
        (measured b ds).ranges.Perm (Piece.ranges 0 qs) →
        redactRequest heap (some a) (some (measured a cs)) = .ok (redactedOf ps) ∧
          redactRequest heap (some b) (some (measured b ds)) = .ok (redactedOf ps) := by
  have own := forThese_measured
  refine ⟨fun c => Injected.register_refused_iff, fun c refused =>
    (Injected.register_refused refused).2, fun c accepted =>
    (Injected.register_accepted accepted).2.2, fun b => ⟨?_, ?_⟩, ?_, ?_⟩
  · rintro ⟨text, thrown⟩
    by_contra fine
    push Not at fine
    obtain ⟨rfl, within⟩ := fine
    obtain ⟨ps, -, -, returned⟩ := redactRequest_fits ⟨own b cs, within⟩
    rw [returned] at thrown
    cases thrown
  · rintro (other | ⟨r, mem, beyond⟩)
    · exact redactRequest_unfit fun fits => other (fits.1.symm.trans (own a cs))
    · exact redactRequest_unfit fun fits => Nat.not_lt.2 (fits.2 r mem) beyond
  · exact fun within => redactRequest_fits ⟨own a cs, within⟩
  · intro b ds ps qs first second alike registered other
    refine ⟨redactRequest_layout (own a cs) first registered, ?_⟩
    rw [redactedOf_alike alike]
    exact redactRequest_layout (own b ds) second other

end Hx.Send
