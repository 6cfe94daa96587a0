import Hx.Policy.Readings

/-!
# The reading sets are closed

One derivation step is a choice of passes: how the member is decoded, how its bytes are
folded, which segment transforms are applied, in which order it is resolved. A set that
stays within its limit is closed under such passes, and is the set without the limit.

The fuel is never what ends a construction: no member is longer than the path, and there
are no more such strings than the fuel allows for.
-/

namespace Hx.Policy

open Hx.Java Hx.Library

variable {U : CaseMap} {base member path query r : JString} {limit : Option Nat}

@[simp] theorem applyAll_nil (s : JString) : applyAll U [] s = s := rfl

@[simp] theorem applyAll_cons (t : Transform) (ts : List Transform) (s : JString) :
    applyAll U (t :: ts) s = applyAll U ts (t.apply U s) := rfl

theorem applyAll_append (ts ts' : List Transform) (s : JString) :
    applyAll U (ts ++ ts') s = applyAll U ts' (applyAll U ts s) :=
  List.foldl_append

/-! ## Passes -/

inductive Decoding where
  | undecoded
  | decoded
  | separatorsInert

def Decoding.transforms : Decoding → List Transform
  | .undecoded => []
  | .decoded => [.decodeToFixedPoint]
  | .separatorsInert => [.decodeSeparatorsInert]

/-- The best fit is only ever taken of a string that was read as UTF-8. -/
inductive Folding where
  | unfolded
  | utf8
  | bestFit

def Folding.transforms : Folding → List Transform
  | .unfolded => []
  | .utf8 => [.foldOverlongUtf8]
  | .bestFit => [.foldOverlongUtf8, .foldBestFit]

structure Pass where
  decoding : Decoding
  folding : Folding
  flags : Flags
  mergeFirst : Bool

namespace Pass

/-- The transforms up to the base, whose characters decide what can be applied to it. -/
def baseTransforms (pass : Pass) : List Transform :=
  pass.decoding.transforms ++ pass.folding.transforms

/-- Every pass ends resolved, merged and case folded. -/
def transforms (pass : Pass) : List Transform :=
  pass.baseTransforms ++ pass.flags.transforms ++
    (if pass.mergeFirst then [.collapseEmptySegments, .collapseDotSegments, .lower]
      else [.collapseDotSegments, .collapseEmptySegments, .lower])

/-- The pass applies to a member what that member's base has triggers for. -/
def Applies (U : CaseMap) (pass : Pass) (member : JString) : Prop :=
  pass.flags.within (applicable (applyAll U pass.baseTransforms member)) = true

end Pass

theorem mem_allFlags (f : Flags) : f ∈ allFlags := by
  obtain ⟨strip, fold, trim, nul⟩ := f
  cases strip <;> cases fold <;> cases trim <;> cases nul <;> decide

theorem Flags.apply_eq (U : CaseMap) (f : Flags) (s : JString) :
    f.apply s = applyAll U f.transforms s := by
  obtain ⟨strip, fold, trim, nul⟩ := f
  cases strip <;> cases fold <;> cases trim <;> cases nul <;> rfl

theorem mem_addReadings : r ∈ addReadings U base ↔ ∃ f : Flags, f.within (applicable base) = true ∧
    (r = lower U (collapseDotSegments (collapseEmptySegments (f.apply base))) ∨
      r = lower U (collapseEmptySegments (collapseDotSegments (f.apply base)))) := by
  simp [addReadings, mem_allFlags]

theorem mem_addBases : r ∈ addBases U base ↔
    ∃ folding : Folding, r ∈ addReadings U (applyAll U folding.transforms base) := by
  have choices : (∃ folding : Folding, r ∈ addReadings U (applyAll U folding.transforms base)) ↔
      r ∈ addReadings U base ∨ r ∈ addReadings U (foldOverlongUtf8 base) ∨
        r ∈ addReadings U (foldBestFit (foldOverlongUtf8 base)) := by
    constructor
    · rintro ⟨folding, h⟩
      cases folding with
      | unfolded => exact .inl h
      | utf8 => exact .inr (.inl h)
      | bestFit => exact .inr (.inr h)
    · rintro (h | h | h)
      · exact ⟨.unfolded, h⟩
      · exact ⟨.utf8, h⟩
      · exact ⟨.bestFit, h⟩
  rw [choices, addBases]
  by_cases utf8 : foldOverlongUtf8 base = base <;>
    by_cases bestFit : foldBestFit (foldOverlongUtf8 base) = foldOverlongUtf8 base <;>
    simp [utf8, bestFit] <;> grind

theorem mem_derive_bases : r ∈ derive U member ↔
    ∃ decoding : Decoding, r ∈ addBases U (applyAll U decoding.transforms member) := by
  have choices : (∃ decoding : Decoding, r ∈ addBases U (applyAll U decoding.transforms member)) ↔
      r ∈ addBases U member ∨ r ∈ addBases U (decodeToFixedPoint member) ∨
        r ∈ addBases U (decodeSeparatorsInert member) := by
    constructor
    · rintro ⟨decoding, h⟩
      cases decoding with
      | undecoded => exact .inl h
      | decoded => exact .inr (.inl h)
      | separatorsInert => exact .inr (.inr h)
    · rintro (h | h | h)
      · exact ⟨.undecoded, h⟩
      · exact ⟨.decoded, h⟩
      · exact ⟨.separatorsInert, h⟩
  rw [choices, derive]
  by_cases decoded : decodeToFixedPoint member = member <;>
    by_cases inert : decodeSeparatorsInert member = member <;>
    by_cases same : decodeSeparatorsInert member = decodeToFixedPoint member <;>
    simp [decoded, inert, same] <;> grind

/-- One derivation step is the passes that apply. -/
theorem mem_derive : r ∈ derive U member ↔
    ∃ pass : Pass, pass.Applies U member ∧ r = applyAll U pass.transforms member := by
  simp only [mem_derive_bases, mem_addBases, mem_addReadings]
  constructor
  · rintro ⟨decoding, folding, f, applies, rfl | rfl⟩
    · refine ⟨⟨decoding, folding, f, true⟩, ?_, ?_⟩
      · simpa [Pass.Applies, Pass.baseTransforms, applyAll_append] using applies
      · simp [Pass.transforms, Pass.baseTransforms, applyAll_append, f.apply_eq U, Transform.apply]
    · refine ⟨⟨decoding, folding, f, false⟩, ?_, ?_⟩
      · simpa [Pass.Applies, Pass.baseTransforms, applyAll_append] using applies
      · simp [Pass.transforms, Pass.baseTransforms, applyAll_append, f.apply_eq U, Transform.apply]
  · rintro ⟨⟨decoding, folding, f, mergeFirst⟩, applies, rfl⟩
    refine ⟨decoding, folding, f, ?_, ?_⟩
    · simpa [Pass.Applies, Pass.baseTransforms, applyAll_append] using applies
    · cases mergeFirst <;>
        simp [Pass.transforms, Pass.baseTransforms, applyAll_append, f.apply_eq U, Transform.apply]

theorem length_derive_le (h : r ∈ derive U member) : r.length ≤ member.length := by
  obtain ⟨pass, -, rfl⟩ := mem_derive.1 h
  exact length_applyAll_le _ _

theorem length_addQueryFolds_le (h : r ∈ addQueryFolds U base) : r.length ≤ base.length := by
  have utf8 := length_foldOverlongUtf8_le base
  simp only [addQueryFolds, List.mem_cons, List.mem_append] at h
  obtain rfl | h | h := h
  · exact length_lower_le _
  · split at h
    · cases h
    · obtain rfl := List.mem_singleton.1 h
      exact Nat.le_trans (length_lower_le _) utf8
  · split at h
    · cases h
    · obtain rfl := List.mem_singleton.1 h
      refine Nat.le_trans (length_lower_le _) ?_
      rw [length_foldBestFit]
      exact utf8

theorem length_deriveQuery_le (h : r ∈ deriveQuery U member) : r.length ≤ member.length := by
  obtain h | h := List.mem_append.1 h
  · exact length_addQueryFolds_le h
  · split at h
    · cases h
    · exact Nat.le_trans (length_addQueryFolds_le h) (length_decodeToFixedPoint_le member)

/-! ## The strings of a length -/

def stringsUpTo : Nat → Finset JString
  | 0 => {[]}
  | n + 1 => insert [] ((Finset.univ ×ˢ stringsUpTo n).image fun (c, s) => c :: s)

theorem mem_stringsUpTo {n : Nat} {s : JString} : s ∈ stringsUpTo n ↔ s.length ≤ n := by
  induction n generalizing s with
  | zero => simp [stringsUpTo]
  | succ n ih =>
      cases s with
      | nil => simp [stringsUpTo]
      | cons c s => simp [stringsUpTo, ih]

theorem card_stringsUpTo_le (n : Nat) : (stringsUpTo n).card ≤ 65537 ^ n := by
  induction n with
  | zero => exact Nat.le_refl _
  | succ n ih =>
      have pairs : (Finset.univ ×ˢ stringsUpTo n : Finset (JChar × JString)).card =
          65536 * (stringsUpTo n).card := by
        rw [Finset.card_product, Finset.card_univ, Fintype.card_fin]
      have positive : 1 ≤ 65537 ^ n := Nat.one_le_pow _ _ (by omega)
      refine Nat.le_trans (Finset.card_insert_le _ _) ?_
      refine Nat.le_trans (Nat.add_le_add_right Finset.card_image_le 1) ?_
      rw [pairs, Nat.pow_succ]
      omega

/-! ## Closure -/

theorem mem_readings_self : path ∈ readings U path limit :=
  Worklist.mem_run (List.mem_singleton_self path)

/-- The strings no longer than the path are a universe for its readings. -/
theorem bounded_derive (path : JString) :
    Worklist.Bounded (derive U) (stringsUpTo path.length) ⟨[path], [path]⟩ where
  nodup := List.nodup_singleton _
  out := by simp [mem_stringsUpTo]
  pending := by simp [mem_stringsUpTo]
  closed := by
    intro x short y from_
    rw [mem_stringsUpTo] at short ⊢
    exact Nat.le_trans (length_derive_le from_) short

theorem bounded_deriveQuery (query : JString) :
    Worklist.Bounded (deriveQuery U) (stringsUpTo query.length) ⟨[], [query]⟩ where
  nodup := List.nodup_nil
  out := nofun
  pending := by simp [mem_stringsUpTo]
  closed := by
    intro x short y from_
    rw [mem_stringsUpTo] at short ⊢
    exact Nat.le_trans (length_deriveQuery_le from_) short

theorem card_stringsUpTo_lt (n : Nat) : (stringsUpTo n).card + 1 ≤ readingFuel n := by
  have card := card_stringsUpTo_le n
  unfold readingFuel
  omega

theorem readings_closed (whole : Worklist.within limit (readings U path limit).length = true)
    (h : member ∈ readings U path limit) (derived : r ∈ derive U member) :
    r ∈ readings U path limit := by
  have expanded : Worklist.Expanded (derive U) [] ⟨[path], [path]⟩ :=
    fun x found => .inl (found.elim id nofun)
  have enough : (stringsUpTo path.length).card + 1 ≤ readingFuel path.length + 1 :=
    Nat.le_succ_of_le (card_stringsUpTo_lt path.length)
  exact Worklist.closed_of_within (bounded_derive path) expanded enough whole member (.inl h) r
    derived

theorem queryReadings_closed
    (whole : Worklist.within limit (queryReadings U query limit).length = true)
    (h : member ∈ queryReadings U query limit ∨ member = query)
    (derived : r ∈ deriveQuery U member) : r ∈ queryReadings U query limit := by
  have expanded : Worklist.Expanded (deriveQuery U) [query] ⟨[], [query]⟩ :=
    fun x found => .inl (found.elim nofun id)
  exact Worklist.closed_of_within (bounded_deriveQuery query) expanded
    (card_stringsUpTo_lt query.length) whole member (h.imp id List.mem_singleton.2) r derived

/-- A query always has a reading. -/
theorem lower_mem_queryReadings : lower U query ∈ queryReadings U query none :=
  queryReadings_closed rfl (.inr rfl) (List.mem_append_left _ (.head _))

/-- A set that stays within its limit is the whole set. -/
theorem readings_none_of_within
    (whole : Worklist.within limit (readings U path limit).length = true) :
    readings U path none = readings U path limit :=
  Worklist.run_none_of_within whole

theorem queryReadings_none_of_within
    (whole : Worklist.within limit (queryReadings U query limit).length = true) :
    queryReadings U query none = queryReadings U query limit :=
  Worklist.run_none_of_within whole

end Hx.Policy
